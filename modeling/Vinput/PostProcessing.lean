import Vinput.CoreConfigTypes
import Vinput.FreshValues
import Vinput.VersionConstraint

/-!
# Post-processing of recognised texts

A scene may have a text rewritten by a language model service or by an
adapter process. The transcript, the selected text and what the rewriter
returns become candidates, one of which is committed.
-/

namespace Vinput.PostProcessing

open AsrSettings (StringMap)
open CoreConfigTypes JsonTree VersionConstraint

/-- A text. -/
abbrev Text := List Char

section Payloads

/-- Where a candidate comes from. -/
inductive Source where
  | raw
  | asr
  | llm
deriving DecidableEq

/-- A text that is offered. -/
structure Candidate where
  text : Text
  source : Source
deriving DecidableEq

/-- What is committed and what is offered instead. -/
structure Payload where
  commitText : Text := []
  candidates : List Candidate := []
deriving DecidableEq

/-- Offer a text without the white space around it, if there is more. -/
def appendCandidate (payload : Payload) (text : Text) (source : Source) : Payload :=
  if trim text=[] then payload
  else {payload with candidates := payload.candidates++[⟨trim text,source⟩]}

end Payloads

section Replies

variable (readJson : Text → Option Json)

end Replies

section Rewriters

/-- What a rewriter returns, and the error text it leaves. -/
structure Rewritten where
  candidates : Option (List Text) := none
  error : Option String := none

/-- How a command has ended. -/
structure CommandResult where
  exitCode : ℤ := -1
  timedOut : Bool := false
  launchFailed : Bool := false
  stdoutText : Text := []
  stderrText : Text := []

/-- What post-processing depends on. -/
structure Environment where
  /-- Have a service rewrite a text: text, scene, service, number of
  candidates, prompt, transcript and selected text. -/
  openAiCompatible : Text → Definition → LlmProvider → Int32 → Text → Text → Text → Rewritten
  /-- Have an adapter rewrite a text. -/
  commandAdapter : Text → Definition → LlmAdapter → Int32 → Rewritten
  /-- The text of a prompt file. -/
  loadFromFileUri : String → Except String String
  /-- A message with its parts. -/
  sprintf : String → List String → String
  /-- The text of a tree. -/
  toText : Json → Text

/-- A rewriter of a scene. -/
inductive Service where
  | provider (provider : LlmProvider)
  | adapter (adapter : LlmAdapter)

/-- The service or the adapter of an identity; the empty identity names none. -/
def findService (settings : CoreConfig) (providerId : String) : Option Service :=
  if providerId="" then none
  else
    match settings.llm.providers.find? fun provider => decide (provider.id=providerId) with
    | some provider => some (.provider provider)
    | none =>
      (settings.llm.adapters.find? fun adapter => decide (adapter.id=providerId)).map .adapter

end Rewriters

section Merging

/-- Candidates while the texts of a rewriter are added. -/
structure Merging where
  payload : Payload
  seen : List Text
  firstLlmText : Text := []
  accepted : ℕ := 0

/-- Add the texts of a rewriter that have not been seen until there are
enough. -/
def mergeRewritten (maxCandidates : Int32) : List Text → Merging → Merging
  | [],merging => merging
  | text::rest,merging =>
    let trimmed := trim text
    if trimmed=[] then mergeRewritten maxCandidates rest merging
    else if trimmed∈merging.seen then mergeRewritten maxCandidates rest merging
    else
      let merged : Merging :=
        ⟨appendCandidate merging.payload trimmed .llm,trimmed::merging.seen,
          if merging.firstLlmText=[] then trimmed else merging.firstLlmText,merging.accepted+1⟩
      if maxCandidates.toInt ≤ merged.accepted then merged
      else mergeRewritten maxCandidates rest merged

/-- A payload with one text. -/
def fallbackPayload (text : Text) : Payload :=
  {appendCandidate {} text .raw with commitText := text}

/-- A transcript is a candidate if the scene shows it. -/
def startTranscript (rawCand : Bool) (normalized : Text) : Merging :=
  if rawCand then {payload := appendCandidate {} normalized .raw,seen := [normalized]}
  else {payload := {},seen := []}

/-- The first text of the rewriter is committed, or else the transcript. -/
def finishTranscript (normalized : Text) (merged : Merging) : Payload :=
  if merged.payload.candidates=[] then fallbackPayload normalized
  else
    {merged.payload with
      commitText := if merged.firstLlmText=[] then normalized else merged.firstLlmText}

variable (env : Environment)

/-- What a transcript's rewriter returns. -/
def rewriteTranscript (normalized : Text) (scene : Definition) (maxLlmCandidates : Int32) :
    Service → Rewritten
  | .provider provider => env.openAiCompatible normalized scene provider maxLlmCandidates [] [] []
  | .adapter adapter => env.commandAdapter normalized scene adapter maxLlmCandidates

/-- Post-process a transcript. -/
def process (rawText : Text) (scene : Definition) (settings : CoreConfig) :
    Payload×Option String :=
  let normalized := trim rawText
  if normalized=[] then ({},none)
  else
    let maxLlmCandidates := normalizeLlmMaxCandidates scene.llmMaxCandidates
    let fallback := fallbackPayload normalized
    match findService settings scene.providerId with
    | none => (fallback,none)
    | some service =>
      if maxLlmCandidates=0 then (fallback,none)
      else
        let rewritten := rewriteTranscript env normalized scene maxLlmCandidates service
        match rewritten.candidates with
        | none => (fallback,rewritten.error)
        | some texts =>
          (finishTranscript normalized (mergeRewritten maxLlmCandidates texts
            (startTranscript scene.rawCand normalized)),rewritten.error)

/-- A text in a block of a tag. -/
def wrapXmlBlock (tag : String) (text : Text) : Text :=
  ['<']++tag.toList++['>', '\n']++text++(if text.getLast?=some '\n' then [] else ['\n'])++
    ['<', '/']++tag.toList++['>']

def kXmlTagAsr : String := "vinput-asr"

def kXmlTagSelected : String := "vinput-selected"

/-- A reference to a prompt file. -/
def isFileUri (prompt : String) : Bool := "file:///".toList.isPrefixOf prompt.toList

/-- A prompt with places for the data. -/
def hasInterpolation (prompt : Text) : Bool :=
  prompt.tails.any fun rest => ['\x7b', '\x7b'].isPrefixOf rest

/-- The prompt of a command with the data that is sent beside it. -/
def taskPrompt (prompt normalizedAsr selectedText : Text) : Text×Text×Text :=
  if hasInterpolation prompt then (prompt,normalizedAsr,selectedText)
  else
    (prompt++(if prompt≠[] ∧ prompt.getLast?≠some '\n' then ['\n'] else [])++['\n']++
      wrapXmlBlock kXmlTagAsr normalizedAsr++['\n', '\n']++
      wrapXmlBlock kXmlTagSelected selectedText++['\n'],[],[])

/-- The prompt of a scene, read from its file if it is a reference. -/
def resolvePrompt (prompt : String) : Except String Text :=
  if isFileUri prompt then
    match env.loadFromFileUri prompt with
    | .ok loaded => .ok loaded.toList
    | .error error =>
      .error (env.sprintf "Failed to load prompt file '%s': %s" [prompt,error])
  else .ok prompt.toList

/-- What a command's rewriter returns, unless its prompt cannot be read. -/
def rewriteCommand (normalizedAsr selectedText : Text) (commandScene : Definition)
    (maxLlmCandidates : Int32) : Service → Except String Rewritten
  | .provider provider =>
    match resolvePrompt env commandScene.prompt with
    | .error error => .error error
    | .ok prompt =>
      let task := taskPrompt prompt normalizedAsr selectedText
      .ok (env.openAiCompatible [] commandScene provider maxLlmCandidates task.1 task.2.1 task.2.2)
  | .adapter adapter =>
    .ok (env.commandAdapter (env.toText (.object
      [("text",.text (String.ofList normalizedAsr)),
        ("selected",.text (String.ofList selectedText))]))
      commandScene adapter maxLlmCandidates)

/-- The selected text is a candidate, and the command if it is another. -/
def startCommand (normalizedAsr selectedText : Text) : Merging :=
  let selected : Merging := {payload := appendCandidate {} selectedText .raw,seen := [selectedText]}
  if normalizedAsr∈selected.seen then selected
  else
    {payload := appendCandidate selected.payload normalizedAsr .asr
     seen := normalizedAsr::selected.seen}

/-- The first text of the rewriter is committed, or else the selected text. -/
def finishCommand (selectedText : Text) (merged : Merging) : Payload :=
  {merged.payload with
    commitText := if merged.firstLlmText=[] then selectedText else merged.firstLlmText}

/-- Apply a spoken command to the selected text. -/
def processCommand (asrText selectedText : Text) (commandScene : Definition)
    (settings : CoreConfig) : Payload×Option String :=
  let normalizedAsr := trim asrText
  let fallback := fallbackPayload (if normalizedAsr=[] then selectedText else normalizedAsr)
  if normalizedAsr=[] ∨ selectedText=[] then (fallback,none)
  else
    let maxLlmCandidates := normalizeLlmMaxCandidates commandScene.llmMaxCandidates
    match findService settings commandScene.providerId with
    | none => (fallback,none)
    | some service =>
      if maxLlmCandidates=0 then (fallback,none)
      else
        match rewriteCommand env normalizedAsr selectedText commandScene maxLlmCandidates service with
        | .error error => (fallback,some error)
        | .ok rewritten =>
          let start := startCommand normalizedAsr selectedText
          let merged := match rewritten.candidates with
            | none => start
            | some texts => mergeRewritten maxLlmCandidates texts start
          (finishCommand selectedText merged,rewritten.error)

end Merging

end Vinput.PostProcessing
