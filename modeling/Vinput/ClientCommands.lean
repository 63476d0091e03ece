import Vinput.ClientBroadcast
import Vinput.ClientFraming

/-!
# Commands of clients

A client prints commands as lines of JSON. Members may be left out where they
have their usual value. Lines that are too long or no command are dropped on their
own: whatever the chunks in which the output arrives, the controller is called
for the commands in their order, each once. A text that is injected without a
scene is broadcast to the clients at once.
-/

namespace Vinput.ClientCommands

open AsrSettings (bytesOf)
open ClientBroadcast (Tell Follows broadcasts heardStep child_reads)
open ClientEvents
open ClientFraming
open CompactJson (word)
open LineSplitting (joinLines)
open InterleavedRuns (run)
open ProcessLines (Bytes newline)
open TrackedProcesses (Oracle PidRecord startup goesOn arrives)

section Parsing

/-- The members of a command line. -/
structure WireEnvelope where
  type : String := ""
  ime : Option Bool := none
  mode : Option String := none
  selectedText : Option String := none
  captureDevice : Option String := none
  scene : Option String := none
  commitRaw : Option Bool := none
  stage : Option String := none
  text : Option String := none

/-- A recording is started. -/
structure StartCommand where
  ime : Bool := true
  mode : String := "normal"
  selectedText : String := ""
  captureDevice : String := ""
deriving DecidableEq

/-- A recording is stopped. -/
structure StopCommand where
  ime : Bool := true
  scene : String := ""
deriving DecidableEq

/-- A recording is cancelled. -/
structure CancelCommand where
  ime : Bool := true
  commitRaw : Bool := false
deriving DecidableEq

/-- Where a text is injected. -/
inductive InjectStage where
  | partialText
  | finalText
deriving DecidableEq

/-- A text is injected. -/
structure InjectCommand where
  ime : Bool := true
  stage : InjectStage := .partialText
  text : String := ""
  scene : String := ""
deriving DecidableEq

/-- A command of a client. -/
inductive ClientCommand where
  | start (command : StartCommand)
  | stop (command : StopCommand)
  | cancel (command : CancelCommand)
  | inject (command : InjectCommand)
deriving DecidableEq

/-- A start with its options. -/
def ParseStart (wire : WireEnvelope) : Except String ClientCommand :=
  let mode := wire.mode.getD "normal"
  if mode≠"normal" ∧ mode≠"command" then
    .error ("start mode must be 'normal' or 'command', got: "++mode)
  else
    .ok (.start ⟨wire.ime.getD true,mode,wire.selectedText.getD "",wire.captureDevice.getD ""⟩)

/-- A stop with its options. -/
def ParseStop (wire : WireEnvelope) : Except String ClientCommand :=
  .ok (.stop ⟨wire.ime.getD true,wire.scene.getD ""⟩)

/-- A cancel with its options. -/
def ParseCancel (wire : WireEnvelope) : Except String ClientCommand :=
  .ok (.cancel ⟨wire.ime.getD true,wire.commitRaw.getD false⟩)

/-- An injection with its text. -/
def ParseInject (wire : WireEnvelope) : Except String ClientCommand :=
  match wire.stage,wire.text with
  | some stage,some text =>
    if stage="partial" then
      .ok (.inject ⟨wire.ime.getD true,.partialText,text,wire.scene.getD ""⟩)
    else if stage="final" then
      .ok (.inject ⟨wire.ime.getD true,.finalText,text,wire.scene.getD ""⟩)
    else .error ("inject stage must be 'partial' or 'final', got: "++stage)
  | _,_ => .error "inject command requires 'stage' and 'text'"

/-- The parsers by the name of the command. -/
def kCommandParsers : List (String×(WireEnvelope → Except String ClientCommand)) :=
  [("start",ParseStart),("stop",ParseStop),("cancel",ParseCancel),("inject",ParseInject)]

/-- The JSON library: the members of an object, or why there are none. -/
structure Glaze where
  readJson : Bytes → Except String WireEnvelope

variable (glaze : Glaze)

/-- A line is a command or a reason why it is none. -/
def ParseClientCommand (line : Bytes) : Except String ClientCommand :=
  if line=[] then .error "command line is empty"
  else
    match glaze.readJson line with
    | .error text => .error text
    | .ok wire =>
      match kCommandParsers.lookup wire.type with
      | some parser => parser wire
      | none => .error ("unknown command type: "++wire.type)

end Parsing

section Dispatch

/-- A call of the controller, with its arguments. -/
inductive Call where
  | startRecording (ime isCommand : Bool) (selectedText captureDevice : String)
  | stopRecording (ime : Bool) (sceneId : String)
  | cancelOperation (ime commitRaw : Bool)
  | injectText (ime : Bool) (stage : InjectStage) (text sceneId : String)
deriving DecidableEq

/-- The call of the controller for a command. -/
def DispatchClientCommand : ClientCommand → Call
  | .start command =>
    .startRecording command.ime (decide (command.mode="command")) command.selectedText
      command.captureDevice
  | .stop command => .stopRecording command.ime command.scene
  | .cancel command => .cancelOperation command.ime command.commitRaw
  | .inject command => .injectText command.ime command.stage command.text command.scene

variable (glaze : Glaze)

/-- A line that is no command is dropped. -/
def DispatchClientLine (calls : List Call) (line : Bytes) : List Call :=
  match ParseClientCommand glaze line with
  | .error _ => calls
  | .ok command => calls++[DispatchClientCommand command]

/-- The calls for the output of a client that arrives in chunks. -/
def dispatched (chunks : List Bytes) : List Call :=
  (chunks.foldl (feed (some (DispatchClientLine glaze))) (⟨[],false⟩,[])).2

/-- What `InjectText` broadcasts before it returns. -/
def InjectText : Call → List Event
  | .injectText ime .partialText text _ => [.partialText (bytesOf text) ime]
  | .injectText ime .finalText text sceneId =>
    if sceneId="" ∧ text≠"" then
      [.committed ⟨bytesOf text,[⟨bytesOf text,RecognitionResult.kSourceRaw⟩]⟩ ime]
    else []
  | _ => []

end Dispatch

section Commands

/-- A member that says this value, or is left out where that is the usual one. -/
def Tells {α : Type*} (given : Option α) (usual value : α) : Prop :=
  given=some value ∨ (given=none ∧ value=usual)

/-- A line of JSON that stands for a command. -/
inductive Names : WireEnvelope → ClientCommand → Prop
  | start {wire : WireEnvelope} {command : StartCommand} (type : wire.type="start")
      (known : command.mode="normal" ∨ command.mode="command")
      (ime : Tells wire.ime true command.ime) (mode : Tells wire.mode "normal" command.mode)
      (selected : Tells wire.selectedText "" command.selectedText)
      (device : Tells wire.captureDevice "" command.captureDevice) : Names wire (.start command)
  | stop {wire : WireEnvelope} {command : StopCommand} (type : wire.type="stop")
      (ime : Tells wire.ime true command.ime) (scene : Tells wire.scene "" command.scene) :
      Names wire (.stop command)
  | cancel {wire : WireEnvelope} {command : CancelCommand} (type : wire.type="cancel")
      (ime : Tells wire.ime true command.ime)
      (commitRaw : Tells wire.commitRaw false command.commitRaw) : Names wire (.cancel command)
  | injectPartial {wire : WireEnvelope} {command : InjectCommand} (type : wire.type="inject")
      (stage : wire.stage=some "partial") (is : command.stage=.partialText)
      (ime : Tells wire.ime true command.ime) (text : wire.text=some command.text)
      (scene : Tells wire.scene "" command.scene) : Names wire (.inject command)
  | injectFinal {wire : WireEnvelope} {command : InjectCommand} (type : wire.type="inject")
      (stage : wire.stage=some "final") (is : command.stage=.finalText)
      (ime : Tells wire.ime true command.ime) (text : wire.text=some command.text)
      (scene : Tells wire.scene "" command.scene) : Names wire (.inject command)

variable {glaze : Glaze} {wire : WireEnvelope} {command : ClientCommand}

/-- What is told stands for the usual value. -/
theorem Tells.getD {α : Type*} {given : Option α} {usual value : α} (h : Tells given usual value) :
    given.getD usual=value := by
  rcases h with rfl | ⟨rfl,rfl⟩ <;> rfl

/-- A command is found in each line that stands for it. -/
theorem parse_names {line : Bytes} (hline : line≠[]) (hread : glaze.readJson line=.ok wire)
    (h : Names wire command) : ParseClientCommand glaze line=.ok command := by
  unfold ParseClientCommand
  rw [if_neg hline,hread]
  cases h with
  | start type known ime mode selected device =>
    have hparser : kCommandParsers.lookup wire.type=some ParseStart := by
      rw [type]
      rfl
    have hmode := mode.getD
    dsimp only
    rw [hparser]
    dsimp only [ParseStart]
    rw [hmode,ime.getD,selected.getD,device.getD,if_neg]
    rintro ⟨hnormal,hcommand⟩
    exact known.elim hnormal hcommand
  | stop type ime scene =>
    have hparser : kCommandParsers.lookup wire.type=some ParseStop := by
      rw [type]
      rfl
    dsimp only
    rw [hparser]
    dsimp only [ParseStop]
    rw [ime.getD,scene.getD]
  | cancel type ime commitRaw =>
    have hparser : kCommandParsers.lookup wire.type=some ParseCancel := by
      rw [type]
      rfl
    dsimp only
    rw [hparser]
    dsimp only [ParseCancel]
    rw [ime.getD,commitRaw.getD]
  | injectPartial type stage is ime text scene =>
    have hparser : kCommandParsers.lookup wire.type=some ParseInject := by
      rw [type]
      rfl
    dsimp only
    rw [hparser]
    dsimp only [ParseInject]
    rw [stage,text,ime.getD,scene.getD,←is]
    rfl
  | injectFinal type stage is ime text scene =>
    have hparser : kCommandParsers.lookup wire.type=some ParseInject := by
      rw [type]
      rfl
    dsimp only
    rw [hparser]
    dsimp only [ParseInject]
    rw [stage,text,ime.getD,scene.getD,←is]
    rfl

theorem tells_getD {α : Type*} (given : Option α) (usual : α) :
    Tells given usual (given.getD usual) := by
  cases given with
  | none => exact .inr ⟨rfl,rfl⟩
  | some value => exact .inl rfl

/-- A line in which a command is found stands for it. -/
theorem names_of_parse {line : Bytes} (h : ParseClientCommand glaze line=.ok command) :
    line≠[] ∧ ∃ wire,glaze.readJson line=.ok wire ∧ Names wire command := by
  unfold ParseClientCommand at h
  split at h
  · cases h
  · rename_i hline
    refine ⟨hline,?_⟩
    split at h
    · cases h
    · rename_i wire hread
      refine ⟨wire,hread,?_⟩
      split at h
      · rename_i parser hparser
        obtain ⟨front,back,hparsers,-⟩ := List.lookup_eq_some_iff.mp hparser
        have hmem : (wire.type,parser)∈kCommandParsers := by
          rw [hparsers]
          exact List.mem_append_right _ List.mem_cons_self
        simp only [kCommandParsers,List.mem_cons,List.not_mem_nil,or_false,Prod.mk.injEq] at hmem
        rcases hmem with ⟨htype,rfl⟩ | ⟨htype,rfl⟩ | ⟨htype,rfl⟩ | ⟨htype,rfl⟩
        · dsimp only [ParseStart] at h
          split at h
          · cases h
          · rename_i hmode
            cases h
            refine .start htype ?_ (tells_getD _ _) (tells_getD _ _) (tells_getD _ _)
              (tells_getD _ _)
            by_contra hneither
            exact hmode ⟨fun hnormal => hneither (.inl hnormal),
              fun hcommand => hneither (.inr hcommand)⟩
        · cases h
          exact .stop htype (tells_getD _ _) (tells_getD _ _)
        · cases h
          exact .cancel htype (tells_getD _ _) (tells_getD _ _)
        · unfold ParseInject at h
          split at h
          · rename_i stage text hstage htext
            split at h
            · rename_i hsofar
              cases h
              exact .injectPartial htype (hsofar ▸ hstage) rfl (tells_getD _ _) htext
                (tells_getD _ _)
            · split at h
              · rename_i hfinal
                cases h
                exact .injectFinal htype (hfinal ▸ hstage) rfl (tells_getD _ _) htext
                  (tells_getD _ _)
              · cases h
          · cases h
      · cases h

/-- A line of a client, with the command it stands for if there is one. -/
structure Printed (glaze : Glaze) (line : Bytes) (command : Option ClientCommand) : Prop where
  clean : newline∉line
  /-- It stands for the command. -/
  names : ∀ known,command=some known → (kept line).length≤kMaxCommandLineBytes ∧ kept line≠[] ∧
    ∃ wire,glaze.readJson (kept line)=.ok wire ∧ Names wire known
  /-- It is too long, or no command. -/
  other : command=none → kMaxCommandLineBytes<(kept line).length ∨
    ∃ text,ParseClientCommand glaze (kept line)=.error text

/-- Every line stands for a command or is something else. -/
theorem printed_total {line : Bytes} (h : newline∉line) :
    ∃ command,Printed glaze line command := by
  by_cases hlong : kMaxCommandLineBytes<(kept line).length
  · exact ⟨none,h,nofun,fun _ => .inl hlong⟩
  · cases hparse : ParseClientCommand glaze (kept line) with
    | error text => exact ⟨none,h,nofun,fun _ => .inr ⟨text,hparse⟩⟩
    | ok command =>
      refine ⟨some command,h,?_,nofun⟩
      rintro known hknown
      cases hknown
      exact ⟨Nat.le_of_not_lt hlong,names_of_parse hparse⟩

/-- Lines of no more than the limit are commands. -/
theorem commandLines_joinLines {lines : List Bytes} (h : ∀ line∈lines,newline∉line) {tail : Bytes}
    (htail : newline∉tail) : commandLines (joinLines newline lines++tail)=
      (lines.map kept).filter (·.length≤kMaxCommandLineBytes) := by
  induction lines with
  | nil => exact commandLines_unended htail
  | cons line rest ih =>
    have hrest := ih fun other hother => h other (List.mem_cons_of_mem line hother)
    rw [LineSplitting.joinLines_cons,List.append_assoc,List.cons_append,
      commandLines_ended (h line List.mem_cons_self),hrest,List.map_cons]
    by_cases hfits : (kept line).length≤kMaxCommandLineBytes
    · simp [hfits]
    · simp [hfits]

/-- Printed commands are dispatched in order, anything else is not. -/
theorem dispatch_printed {items : List (Bytes×Option ClientCommand)}
    (h : ∀ item∈items,Printed glaze item.1 item.2) (calls : List Call) :
    (((items.map Prod.fst).map kept).filter (·.length≤kMaxCommandLineBytes)).foldl
        (DispatchClientLine glaze) calls=
      calls++(items.filterMap Prod.snd).map DispatchClientCommand := by
  induction items generalizing calls with
  | nil => simp
  | cons item rest ih =>
    obtain ⟨line,command⟩ := item
    have hprinted := h (line,command) List.mem_cons_self
    have hrest := ih fun other hother => h other (List.mem_cons_of_mem _ hother)
    rw [List.map_cons,List.map_cons]
    cases command with
    | none =>
      rw [List.filterMap_cons_none rfl]
      by_cases hfits : (kept line).length≤kMaxCommandLineBytes
      · obtain ⟨text,hparse⟩ := (hprinted.other rfl).resolve_left (Nat.not_lt.mpr hfits)
        have hline : DispatchClientLine glaze calls (kept line)=calls := by
          unfold DispatchClientLine
          rw [hparse]
        rw [List.filter_cons_of_pos (by simpa using hfits),List.foldl_cons,hline,hrest]
      · rw [List.filter_cons_of_neg (by simpa using hfits),hrest]
    | some command =>
      obtain ⟨hfits,hne,wire,hread,hnames⟩ := hprinted.names command rfl
      have hline : DispatchClientLine glaze calls (kept line)=
          calls++[DispatchClientCommand command] := by
        unfold DispatchClientLine
        rw [parse_names hne hread hnames]
      rw [List.filter_cons_of_pos (by simpa using hfits),List.foldl_cons,hline,hrest,
        List.append_assoc]
      rfl

/-- What is injected can be written. -/
theorem sourced_InjectText (call : Call) : ∀ event∈InjectText call,Sourced event := by
  intro event hevent
  unfold InjectText at hevent
  split at hevent
  · rw [List.mem_singleton.mp hevent]
    trivial
  · split at hevent
    · rw [List.mem_singleton.mp hevent]
      intro candidate hcandidate
      rw [List.mem_singleton.mp hcandidate]
      have hbytes : RecognitionResult.kSourceRaw=[114,97,119] := rfl
      have hprintable : ∀ byte∈RecognitionResult.kSourceRaw,32≤byte := by
        rw [hbytes]
        simp
      exact plain_of_printable hprintable
    · exact absurd hevent List.not_mem_nil
  · exact absurd hevent List.not_mem_nil

/-- Whatever the chunks in which a client's output arrives, and whatever else
it prints, the controller is called for its commands in their order, each once.
Where the texts that are injected are what is broadcast, every client follows
them, however it is started and stopped meanwhile. -/
theorem commands_dispatched {items : List (Bytes×Option ClientCommand)}
    (h : ∀ item∈items,Printed glaze item.1 item.2) {tail : Bytes} (htail : newline∉tail)
    {chunks : List Bytes}
    (hchunks : chunks.flatten=joinLines newline (items.map Prod.fst)++tail) :
    let calls := (items.filterMap Prod.snd).map DispatchClientCommand
    (∀ line,newline∉line → ∃ command,Printed glaze line command) ∧
    dispatched glaze chunks=calls ∧
    ∀ (files : String → Option PidRecord) (schedule : List (ℕ×Oracle)),
      Tell (broadcasts (run heardStep (startup files,[]) schedule).2) (calls.flatMap InjectText) →
      ∀ child,Follows (run heardStep (startup files,[]) schedule) child
        (calls.flatMap InjectText) := by
  intro calls
  have hclean : ∀ line∈items.map Prod.fst,newline∉line := by
    intro line hline
    obtain ⟨item,hitem,rfl⟩ := List.mem_map.mp hline
    exact (h item hitem).clean
  have hfeed := foldl_feed (DispatchClientLine glaze) [] chunks (List.not_mem_nil (a := newline))
  refine ⟨fun _ => printed_total,?_,fun files schedule htell => child_reads files schedule ?_ htell⟩
  · rw [within_nil,List.nil_append,hchunks,commandLines_joinLines hclean htail,
      dispatch_printed h,List.nil_append] at hfeed
    exact hfeed
  · intro event hevent
    obtain ⟨call,-,hmem⟩ := List.mem_flatMap.mp hevent
    exact sourced_InjectText call event hmem

/-- The library on one line. -/
def sampleLine : Bytes :=
  bytesOf "\x7b\"type\":\"inject\",\"stage\":\"final\",\"text\":\"hi\"\x7d"

/-- A reader that knows the sample. -/
def sampleGlaze : Glaze where
  readJson line :=
    if line=sampleLine then .ok {type := "inject",stage := some "final",text := some "hi"}
    else .error "expected_brace"

/-- A final text is injected. -/
def sampleCommand : ClientCommand := .inject ⟨true,.finalText,"hi",""⟩

/-- A client is started and the text is broadcast. -/
def sampleRun : List (ℕ×Oracle) :=
  arrives 0 (.start "mic")::goesOn 0 9++
    arrives 1 (.broadcast ("\x7b\"type\":\"committed\",\"text\":\"hi\","++
      "\"candidates\":[\x7b\"text\":\"hi\",\"source\":\"raw\"\x7d],\"ime\":true\x7d"))::
    goesOn 1 1

theorem commands_dispatched_sample :
    dispatched sampleGlaze [[104,10]++sampleLine.take 9,sampleLine.drop 9++[13,10],[104]]=
      [.injectText true .finalText "hi" ""] ∧
    Follows (run heardStep (startup fun _ => none,[]) sampleRun) 0
      [.committed ⟨[104,105],[⟨[104,105],RecognitionResult.kSourceRaw⟩]⟩ true] := by
  have hother : Printed sampleGlaze [104] none :=
    ⟨by decide,fun _ h => absurd h (by simp),
      fun _ => .inr ⟨"expected_brace",by decide +kernel⟩⟩
  have hkept : kept (sampleLine++[13])=sampleLine := by decide +kernel
  have hread : sampleGlaze.readJson sampleLine=
      .ok {type := "inject",stage := some "final",text := some "hi"} := by
    dsimp only [sampleGlaze]
    rw [if_pos rfl]
  have hcommand : Printed sampleGlaze (sampleLine++[13]) (some sampleCommand) := by
    refine ⟨by decide +kernel,?_,fun h => absurd h (by simp)⟩
    rintro known hknown
    obtain rfl := Option.some.inj hknown
    rw [hkept]
    exact ⟨by decide +kernel,by decide +kernel,_,hread,.injectFinal rfl rfl rfl (.inr ⟨rfl,rfl⟩) rfl
      (.inr ⟨rfl,rfl⟩)⟩
  have hitems : ∀ item∈[([104],none),(sampleLine++[13],some sampleCommand)],
      Printed sampleGlaze item.1 item.2 := by
    intro item hitem
    rcases List.mem_cons.mp hitem with rfl | hitem
    · exact hother
    · exact List.mem_singleton.mp hitem ▸ hcommand
  have hdispatched := @commands_dispatched sampleGlaze _ hitems [104] (by decide)
    [[104,10]++sampleLine.take 9,sampleLine.drop 9++[13,10],[104]] (by decide +kernel)
  have htell : Tell (broadcasts (run heardStep (startup fun _ => none,[]) sampleRun).2)
      [.committed ⟨[104,105],[⟨[104,105],RecognitionResult.kSourceRaw⟩]⟩ true] := by
    unfold Tell
    decide +kernel
  exact ⟨hdispatched.2.1,hdispatched.2.2 (fun _ => none) sampleRun htell 0⟩

end Commands

end Vinput.ClientCommands
