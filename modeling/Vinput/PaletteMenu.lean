import Vinput.HotwordScores
import Vinput.TextWords
import Vinput.Utf8Codec

/-!
# The command palette

A menu is shown on a hotkey and filtered by what is typed. A query that starts
with a slash names a command; choosing an entry of a command types its name,
and choosing any other item acts on it. What keys are, what the items come from
and how the list of candidates is paged is given.
-/

namespace Vinput.PaletteMenu

open HotwordScores (toLower equalsIgnoreCase)
open ProcessLines (Bytes isSpace)
open Utf8Codec

section Commands

/-- What a page of the palette lists. -/
inductive PaletteCategory where
  | asr
  | scene
  | commandModel
  | adapter
  | custom
deriving DecidableEq

/-- A command that opens a page. -/
structure PaletteCommand where
  id : Bytes
  name : Bytes
  aliasName : Bytes
  description : Bytes
  category : PaletteCategory
deriving DecidableEq

/-- A command replaces the one with its id. -/
def registerCommand (command : PaletteCommand) : List PaletteCommand → List PaletteCommand
  | [] => [command]
  | other::rest =>
    if other.id=command.id then command::rest else other::registerCommand command rest

/-- The token is the name of a command or an alias. -/
def named (token : Bytes) (command : PaletteCommand) : Bool :=
  equalsIgnoreCase command.name token ||
    (decide (command.aliasName≠[]) && equalsIgnoreCase command.aliasName token)

/-- The command of a token. -/
def findByNameOrAlias (registry : List PaletteCommand) (token : Bytes) : Option PaletteCommand :=
  if token=[] then none else registry.find? (named token)

/-- The command of a page. -/
def findByCategory (registry : List PaletteCommand) (category : PaletteCategory) :
    Option PaletteCommand := registry.find? fun command => decide (command.category=category)

/-- The bytes of a text in ASCII. -/
def ascii (text : String) : Bytes := text.toList.map fun c => UInt8.ofNat c.toNat

/-- The commands of the program. -/
def initializePaletteRegistry : List PaletteCommand :=
  [⟨ascii "model",ascii "model",ascii "m",ascii "Switch command model",.commandModel⟩,
    ⟨ascii "asr",ascii "asr",ascii "a",ascii "Switch ASR provider or model",.asr⟩,
    ⟨ascii "scene",ascii "scene",ascii "s",ascii "Switch dictation scene",.scene⟩,
    ⟨ascii "proc",ascii "proc",ascii "p",ascii "Manage adapter processes",.adapter⟩].foldl
      (fun registry command => registerCommand command registry) []

end Commands

section Queries

/-- A query with its page and what is searched in it. -/
structure ParsedPaletteQuery where
  command : Option PaletteCommand := none
  terms : Bytes := []
  isCommandMode : Bool := false
deriving DecidableEq

/-- Case does not count. -/
def normalizeSearchText (text : Bytes) : Bytes := text.map toLower

/-- Terms are separated by white space. -/
def splitSearchTerms (text : Bytes) : List Bytes :=
  TextWords.tokens isSpace (normalizeSearchText text)

/-- Every term is found. -/
def matchesAllTerms (haystack query : Bytes) : Bool :=
  query.isEmpty ||
    (splitSearchTerms query).all fun term => decide (term<:+:normalizeSearchText haystack)

/-- The slash in front of a command. -/
def slash : UInt8 := 47

/-- White space or a slash. -/
def separates (byte : UInt8) : Bool := isSpace byte || decide (byte=slash)

/-- A query that starts with a command searches its page. -/
def parsePaletteQuery (registry : List PaletteCommand) (rawQuery : Bytes) : ParsedPaletteQuery :=
  match rawQuery.dropWhile isSpace with
  | [] => {}
  | first::rest =>
    if first=slash then
      let token := rest.takeWhile fun byte => !separates byte
      let behind := rest.dropWhile fun byte => !separates byte
      {command := if token=[] then none else findByNameOrAlias registry token
       terms := behind.dropWhile separates
       isCommandMode := true}
    else {terms := (first::rest).dropWhile separates}

/-- The bytes before the last that is no continuation of a code point. -/
def popLastUtf8Char (text : Bytes) : Bytes :=
  ((text.reverse.dropWhile fun byte => decide (byte &&& 0xC0=0x80)).drop 1).reverse

end Queries

section Items

/-- An item of the palette; the payload is what its command acts on. -/
structure PaletteItem (α : Type*) where
  category : PaletteCategory
  id : Bytes
  searchText : Bytes
  isCommandEntry : Bool
  commandToken : Bytes
  payload : Option α

/-- What a command lists. -/
structure Listing (α : Type*) where
  id : Bytes
  searchText : Bytes
  payload : α

variable {α : Type*}

/-- The entry that opens a page. -/
def commandEntry (command : PaletteCommand) : PaletteItem α where
  category := command.category
  id := ascii "cmd:"++command.id
  searchText := command.name++[32]++command.aliasName++[32]++command.description
  isCommandEntry := true
  commandToken := if command.aliasName=[] then command.name else command.aliasName
  payload := none

/-- The entry of something listed. -/
def listedItem (category : PaletteCategory) (listing : Listing α) : PaletteItem α where
  category := category
  id := listing.id
  searchText := listing.searchText
  isCommandEntry := false
  commandToken := []
  payload := some listing.payload

/-- The entries of all pages. -/
def reloadPaletteItems (registry : List PaletteCommand)
    (getItems : PaletteCategory → List (Listing α)) : List (PaletteItem α) :=
  registry.map commandEntry++
    registry.flatMap fun command => (getItems command.category).map (listedItem command.category)

/-- The item is listed for a query. -/
def isListed (registry : List PaletteCommand) (query : Bytes) (item : PaletteItem α) : Bool :=
  let parsed := parsePaletteQuery registry query
  let found := parsed.terms.isEmpty || matchesAllTerms item.searchText parsed.terms
  if item.isCommandEntry then
    query.isEmpty || (parsed.isCommandMode && parsed.command.isNone && found)
  else if query.isEmpty then false
  else
    match parsed.command with
    | some command => decide (item.category=command.category) && found
    | none => !parsed.isCommandMode && matchesAllTerms item.searchText parsed.terms

/-- Positions of the items that are listed. -/
def filteredIndices (registry : List PaletteCommand) (query : Bytes)
    (items : List (PaletteItem α)) : List ℕ :=
  (items.zipIdx.filter fun entry => isListed registry query entry.1).map Prod.snd

end Items

section Menu

/-- A list of candidates on pages with a cursor. Turning the page and moving
the cursor change which candidates are on the page, not the candidates. -/
structure CandidateLists (V : Type*) where
  build : List ℕ → V
  candidates : V → List ℕ
  /-- Candidates on the page that is shown. -/
  page : V → List ℕ
  /-- Where on the page the cursor is, if it is there. -/
  cursorIndex : V → Option ℕ
  turnPage : Bool → V → V
  moveCursor : Bool → V → V
  candidates_build : ∀ indices, candidates (build indices)=indices
  candidates_turnPage : ∀ next view, candidates (turnPage next view)=candidates view
  candidates_moveCursor : ∀ next view, candidates (moveCursor next view)=candidates view
  page_sublist : ∀ view, (page view).Sublist (candidates view)

/-- A key as the menu sees it. -/
inductive Key where
  /-- A hotkey of the menu itself. -/
  | menu
  | modifier
  | escape
  | backspace
  | printable (cp : {cp : UInt32 // Utf8Codec.Encodable cp})
  | pagePrev
  | pageNext
  | digit (digit : ℕ)
  | up
  | down
  | enter
  | other

variable {α V : Type*}

/-- The palette and the panel it is shown in. -/
structure Palette (α V : Type*) where
  items : List (PaletteItem α) := []
  visible : Bool := false
  /-- The input context the menu belongs to. -/
  ic : Option ℕ := none
  query : Bytes := []
  filtered : List ℕ := []
  /-- The candidates in the input panel. -/
  view : Option V := none
  /-- Items that have been acted on, with the queries they were listed for. -/
  acted : List (Bytes×PaletteItem α) := []

variable (registry : List PaletteCommand) (lists : CandidateLists V)

/-- The entries that match the query are shown. -/
def rebuildPaletteMenu (palette : Palette α V) : Palette α V :=
  if palette.ic=none then palette
  else
    let indices := filteredIndices registry palette.query palette.items
    {palette with
      filtered := indices
      view := some (lists.build indices)}

/-- The palette is opened for an input context. -/
def showPaletteMenu (getItems : PaletteCategory → List (Listing α)) (ic : Option ℕ)
    (palette : Palette α V) : Palette α V :=
  if ic=none then palette
  else rebuildPaletteMenu registry lists
    {palette with
      items := reloadPaletteItems registry getItems
      ic := ic
      visible := true
      query := []}

/-- A palette that is closed. -/
def resetPaletteMenuState (palette : Palette α V) : Palette α V :=
  {palette with
    ic := none
    visible := false
    query := []
    filtered := []}

/-- The input panel is cleared where the menu was in it. -/
def hidePaletteMenu (palette : Palette α V) : Palette α V :=
  if palette.visible=false ∨ palette.ic=none then resetPaletteMenuState palette
  else {resetPaletteMenuState palette with view := none}

/-- An entry is chosen: a command opens its page, anything else is done. -/
def selectPaletteItem (index : ℕ) (palette : Palette α V) : Palette α V :=
  match palette.items[index]? with
  | none => hidePaletteMenu palette
  | some item =>
    if item.isCommandEntry then
      rebuildPaletteMenu registry lists {palette with query := slash::item.commandToken++[32]}
    else
      let hidden := hidePaletteMenu palette
      match findByCategory registry item.category with
      | none => hidden
      | some _ => {hidden with acted := hidden.acted++[(palette.query,item)]}

/-- The candidate at a position of the page. -/
def candidateAt (position : V → ℕ) (palette : Palette α V) : Option ℕ :=
  palette.view.bind fun view => (lists.page view)[position view]?

/-- The palette after a key, and whether the key is taken. -/
def handlePaletteMenuKeyEvent (key : Key) (isRelease : Bool) (palette : Palette α V) :
    Palette α V×Bool :=
  if palette.visible=false ∨ palette.ic=none then (palette,false)
  else
    match key with
    | .menu => (palette,false)
    | .other => if isRelease then (palette,false) else (hidePaletteMenu palette,false)
    | key =>
      if isRelease then (palette,true)
      else
        match key with
        | .escape =>
          (if palette.query≠[] then rebuildPaletteMenu registry lists {palette with query := []}
            else hidePaletteMenu palette,true)
        | .backspace =>
          (if palette.query≠[] then
              rebuildPaletteMenu registry lists
                {palette with query := popLastUtf8Char palette.query}
            else hidePaletteMenu palette,true)
        | .printable cp =>
          (rebuildPaletteMenu registry lists
            {palette with query := palette.query++encodeCodepoint cp},true)
        | .pagePrev => ({palette with view := palette.view.map (lists.turnPage false)},true)
        | .pageNext => ({palette with view := palette.view.map (lists.turnPage true)},true)
        | .digit digit =>
          match candidateAt lists (fun _ => digit) palette with
          | some index => (selectPaletteItem registry lists index palette,true)
          | none => (hidePaletteMenu palette,false)
        | .up =>
          match palette.view with
          | some view => ({palette with view := some (lists.moveCursor false view)},true)
          | none => (hidePaletteMenu palette,false)
        | .down =>
          match palette.view with
          | some view => ({palette with view := some (lists.moveCursor true view)},true)
          | none => (hidePaletteMenu palette,false)
        | .enter =>
          (match candidateAt lists (fun view => (lists.cursorIndex view).getD 0) palette with
          | some index => selectPaletteItem registry lists index palette
          | none => hidePaletteMenu palette,true)
        | _ => (palette,true)

/-- What happens to the menu. -/
inductive Event (α : Type*) where
  /-- The hotkey, in an input context; it may be refused while audio is recorded. -/
  | toggle (ic : Option ℕ) (refused : Bool) (getItems : PaletteCategory → List (Listing α))
  | key (key : Key) (isRelease : Bool)
  /-- A candidate on the page is clicked. -/
  | click (position : ℕ)
  /-- The settings of the addon are applied. -/
  | applySettings (getItems : PaletteCategory → List (Listing α))
  | destroyed (ic : ℕ)
  /-- Another menu or a recording needs the input panel. -/
  | dismiss
  /-- Somebody else clears the input panel, as hideResultMenu does where the palette
  was opened over the menu of results; the palette takes no notice. -/
  | clear
  /-- The menu of results sees a key first and turns the page, or moves the cursor,
  of whatever the panel shows. -/
  | turn (next : Bool)
  | move (next : Bool)

/-- The hotkey opens the palette or closes it. -/
def toggleCommandPalette (ic : Option ℕ) (refused : Bool)
    (getItems : PaletteCategory → List (Listing α)) (palette : Palette α V) : Palette α V :=
  if palette.visible then hidePaletteMenu palette
  else if refused then palette
  else showPaletteMenu registry lists getItems ic palette

/-- One event. -/
def step (palette : Palette α V) : Event α → Palette α V
  | .toggle ic refused getItems => toggleCommandPalette registry lists ic refused getItems palette
  | .key key isRelease => (handlePaletteMenuKeyEvent registry lists key isRelease palette).1
  | .click position =>
    match candidateAt lists (fun _ => position) palette with
    | some index => selectPaletteItem registry lists index palette
    | none => palette
  | .applySettings getItems => {palette with items := reloadPaletteItems registry getItems}
  | .destroyed ic =>
    -- its input panel goes with the context
    if palette.ic=some ic then {resetPaletteMenuState palette with view := none} else palette
  | .dismiss => hidePaletteMenu palette
  | .clear => {palette with view := none}
  | .turn next => {palette with view := palette.view.map (lists.turnPage next)}
  | .move next => {palette with view := palette.view.map (lists.moveCursor next)}

end Menu

end Vinput.PaletteMenu
