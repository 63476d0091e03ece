import Vinput.PaletteMenu

/-!
# Searching in the command palette

Once there is something to search for, whatever is typed more only drops items
from the list. Choosing the entry of a command lists what the command lists.
Erasing takes the last code point off a query.
-/

namespace Vinput.PaletteSearch

open HotwordScores (toLower)
open PaletteMenu
open ProcessLines (Bytes isSpace)
open Utf8Codec

section Terms

variable {α : Type*} {space : α → Bool}

/-- What stands behind a text goes to its last part and to new parts. -/
theorem splitOnP_append (text more : List α) : ∃ init last behind rest,
    text.splitOnP space=init++[last] ∧ (text++more).splitOnP space=init++(last++behind)::rest := by
  induction text with
  | nil =>
    obtain ⟨behind,rest,hsplit⟩ :=
      List.exists_cons_of_ne_nil (List.splitOnP_ne_nil space more)
    exact ⟨[],[],behind,rest,List.splitOnP_nil ..,hsplit⟩
  | cons c text ih =>
    obtain ⟨init,last,behind,rest,htext,hmore⟩ := ih
    rw [List.cons_append,List.splitOnP_cons_eq_if_modifyHead,List.splitOnP_cons_eq_if_modifyHead,
      htext,hmore]
    cases space c with
    | true => exact ⟨[]::init,last,behind,rest,rfl,rfl⟩
    | false =>
      cases init with
      | nil => exact ⟨[],c::last,behind,rest,rfl,rfl⟩
      | cons first init => exact ⟨(c::first)::init,last,behind,rest,rfl,rfl⟩

/-- A word of a text starts a word of every longer text. -/
theorem tokens_front {text more token : List α} (h : token∈TextWords.tokens space text) :
    ∃ longer∈TextWords.tokens space (text++more), token<+:longer := by
  obtain ⟨init,last,behind,rest,htext,hmore⟩ := @splitOnP_append _ space text more
  unfold TextWords.tokens at h ⊢
  obtain ⟨hmem,hne⟩ := List.mem_filter.mp h
  rw [htext] at hmem
  rw [hmore]
  rcases List.mem_append.mp hmem with hinit | hlast
  · exact ⟨token,List.mem_filter.mpr ⟨List.mem_append_left _ hinit,hne⟩,List.prefix_refl _⟩
  · rw [List.mem_singleton.mp hlast] at hne ⊢
    refine ⟨last++behind,List.mem_filter.mpr ⟨List.mem_append_right _ List.mem_cons_self,?_⟩,
      List.prefix_append _ _⟩
    cases last with
    | nil => cases hne
    | cons => rfl

/-- More terms match fewer texts. -/
theorem matchesAllTerms_append {haystack query more : Bytes}
    (h : matchesAllTerms haystack (query++more)=true) : matchesAllTerms haystack query=true := by
  unfold matchesAllTerms at h ⊢
  rw [Bool.or_eq_true] at h ⊢
  rcases h with hempty | hall
  · left
    have hnil := List.isEmpty_iff.mp hempty
    rw [(List.append_eq_nil_iff.mp hnil).1]
    rfl
  · right
    rw [List.all_eq_true] at hall ⊢
    intro term hterm
    have hlower : splitSearchTerms (query++more)=TextWords.tokens isSpace
        (normalizeSearchText query++normalizeSearchText more) := by
      unfold splitSearchTerms normalizeSearchText
      rw [List.map_append]
    obtain ⟨longer,hlonger,hfront⟩ :=
      @tokens_front _ isSpace _ (normalizeSearchText more) _ hterm
    rw [←hlower] at hlonger
    exact decide_eq_true (hfront.isInfix.trans (of_decide_eq_true (hall longer hlonger)))

end Terms

section Queries

variable {registry : List PaletteCommand}

/-- What is dropped in front does not depend on what follows. -/
theorem dropWhile_append_of_ne_nil {p : UInt8 → Bool} {text : Bytes} (h : text.dropWhile p≠[])
    (more : Bytes) : (text++more).dropWhile p=text.dropWhile p++more := by
  rw [List.dropWhile_append]
  cases hdrop : text.dropWhile p with
  | nil => exact absurd hdrop h
  | cons => rfl

theorem takeWhile_append_of_ne_nil {p : UInt8 → Bool} {text : Bytes} (h : text.dropWhile p≠[])
    (more : Bytes) : (text++more).takeWhile p=text.takeWhile p := by
  rw [List.takeWhile_append,if_neg]
  intro hlength
  have hsplit := congrArg List.length (@List.takeWhile_append_dropWhile _ p text)
  rw [List.length_append,hlength] at hsplit
  exact h (List.length_eq_zero_iff.mp (by omega))

/-- What is typed behind the terms of a query belongs to the terms. -/
theorem parse_append {query : Bytes} (h : (parsePaletteQuery registry query).terms≠[])
    (more : Bytes) : parsePaletteQuery registry (query++more)=
      {parsePaletteQuery registry query with
        terms := (parsePaletteQuery registry query).terms++more} := by
  unfold parsePaletteQuery at h ⊢
  cases hquery : query.dropWhile isSpace with
  | nil =>
    rw [hquery] at h
    exact absurd rfl h
  | cons first rest =>
    have hmore : (query++more).dropWhile isSpace=first::(rest++more) := by
      rw [dropWhile_append_of_ne_nil (by rw [hquery]; nofun),hquery]
      rfl
    rw [hquery] at h
    rw [hmore]
    dsimp only at h ⊢
    by_cases hslash : first=slash
    · rw [if_pos hslash] at h
      rw [if_pos hslash,if_pos hslash]
      dsimp only at h ⊢
      have hbehind : rest.dropWhile (fun byte => !separates byte)≠[] := by
        intro hnil
        rw [hnil] at h
        exact h rfl
      rw [dropWhile_append_of_ne_nil hbehind,takeWhile_append_of_ne_nil hbehind,
        dropWhile_append_of_ne_nil h]
    · rw [if_neg hslash] at h
      rw [if_neg hslash,if_neg hslash]
      dsimp only at h ⊢
      rw [←List.cons_append,dropWhile_append_of_ne_nil h]

/-- Once there is something to search for, what is typed more lists no other
item. -/
theorem isListed_append {α : Type*} {query more : Bytes} {item : PaletteItem α}
    (hterms : (parsePaletteQuery registry query).terms≠[])
    (h : isListed registry (query++more) item=true) : isListed registry query item=true := by
  have hquery : query≠[] := by
    rintro rfl
    exact hterms rfl
  have hlonger : query++more≠[] := fun hnil => hquery (List.append_eq_nil_iff.mp hnil).1
  have hempty : query.isEmpty=false := by cases query with
    | nil => exact absurd rfl hquery
    | cons => rfl
  have hmore : (query++more).isEmpty=false := by cases query with
    | nil => exact absurd rfl hquery
    | cons => rfl
  unfold isListed at h ⊢
  rw [parse_append hterms] at h
  rw [hmore] at h
  rw [hempty]
  generalize hparsed : parsePaletteQuery registry query=parsed at h hterms ⊢
  have hfound : (parsed.terms++more).isEmpty=true ∨
      matchesAllTerms item.searchText (parsed.terms++more)=true →
      matchesAllTerms item.searchText parsed.terms=true := by
    rintro (hnil | hmatch)
    · exact absurd (List.append_eq_nil_iff.mp (List.isEmpty_iff.mp hnil)).1 hterms
    · exact matchesAllTerms_append hmatch
  dsimp only at h ⊢
  by_cases hentry : item.isCommandEntry=true
  · rw [if_pos hentry,Bool.false_or,Bool.and_eq_true,Bool.or_eq_true] at h
    rw [if_pos hentry,Bool.false_or,Bool.and_eq_true,Bool.or_eq_true]
    exact ⟨h.1,.inr (hfound h.2)⟩
  · rw [if_neg hentry,if_neg nofun] at h
    rw [if_neg hentry,if_neg nofun]
    cases hcommand : parsed.command with
    | none =>
      rw [hcommand,Bool.and_eq_true] at h
      exact (Bool.and_eq_true _ _).mpr ⟨h.1,hfound (.inr h.2)⟩
    | some command =>
      rw [hcommand,Bool.and_eq_true,Bool.or_eq_true] at h
      rw [Bool.and_eq_true,Bool.or_eq_true]
      exact ⟨h.1,.inr (hfound h.2)⟩

end Queries

section Choosing

variable {α V : Type*} {registry : List PaletteCommand} {lists : CandidateLists V}

/-- The items at the positions that are listed. -/
theorem filteredIndices_items (query : Bytes) (items : List (PaletteItem α)) :
    (filteredIndices registry query items).filterMap (items[·]?)=
      items.filter (isListed registry query) := by
  have hfirst : ∀ entry∈items.zipIdx.filter fun entry => isListed registry query entry.1,
      items[entry.2]?=some entry.1 := by
    intro entry hentry
    exact List.mem_zipIdx_iff_getElem?.mp (List.mem_of_mem_filter hentry)
  have hsame : (items.zipIdx.filter fun entry => isListed registry query entry.1).filterMap
      ((items[·]?) ∘ Prod.snd)=
        (items.zipIdx.filter (isListed registry query ∘ Prod.fst)).map Prod.fst := by
    rw [←List.filterMap_eq_map]
    exact List.filterMap_congr hfirst
  unfold filteredIndices
  rw [List.filterMap_map,hsame,←List.filter_map,List.zipIdx_map_fst]

/-- The query that choosing an entry types names the command and nothing else. -/
theorem parse_entry {command : PaletteCommand} (h : command∈initializePaletteRegistry) :
    parsePaletteQuery initializePaletteRegistry
      (slash::(commandEntry command : PaletteItem α).commandToken++[32])=
        {command := some command, terms := [], isCommandMode := true} := by
  have hall : ∀ known∈initializePaletteRegistry,
      parsePaletteQuery initializePaletteRegistry
        (slash::(if known.aliasName=[] then known.name else known.aliasName)++[32])=
          {command := some known, terms := [], isCommandMode := true} := by
    decide +kernel
  exact hall command h

/-- For such a query, what the command lists is listed and nothing else. -/
theorem isListed_entry {command : PaletteCommand} (h : command∈initializePaletteRegistry)
    (item : PaletteItem α) :
    isListed initializePaletteRegistry
      (slash::(commandEntry command : PaletteItem α).commandToken++[32]) item=
        (!item.isCommandEntry && decide (item.category=command.category)) := by
  unfold isListed
  rw [parse_entry h]
  cases item.isCommandEntry <;> simp

/-- Every category of items has one command. -/
theorem category_unique {first second : PaletteCommand} (hfirst : first∈initializePaletteRegistry)
    (hsecond : second∈initializePaletteRegistry) (h : first.category=second.category) :
    first=second := by
  have hall : ∀ one∈initializePaletteRegistry, ∀ other∈initializePaletteRegistry,
      one.category=other.category → one=other := by
    decide +kernel
  exact hall first hfirst second hsecond h

theorem registry_nodup : initializePaletteRegistry.Nodup := by decide +kernel

/-- A value of a list without repetitions occurs at one place of it. -/
theorem flatMap_single {β γ : Type*} [DecidableEq β] {values : List β} {value : β}
    (hnodup : values.Nodup) (h : value∈values) (made : List γ) :
    (values.flatMap fun other => if other=value then made else [])=made := by
  induction values with
  | nil => cases h
  | cons first rest ih =>
    rw [List.nodup_cons] at hnodup
    rw [List.flatMap_cons]
    rcases List.mem_cons.mp h with hsame | hrest
    · have hnone : (rest.flatMap fun other => if other=value then made else [])=[] := by
        rw [List.flatMap_eq_nil_iff]
        intro other hother
        refine if_neg fun hvalue => hnodup.1 ?_
        rw [←hsame,←hvalue]
        exact hother
      rw [if_pos hsame.symm,hnone,List.append_nil]
    · have hne : first≠value := fun hvalue => hnodup.1 (hvalue ▸ hrest)
      rw [if_neg hne,List.nil_append,ih hnodup.2 hrest]

/-- Of the items of all commands, those of one. -/
theorem items_entry {command : PaletteCommand} (h : command∈initializePaletteRegistry)
    (getItems : PaletteCategory → List (Listing α)) :
    (reloadPaletteItems initializePaletteRegistry getItems).filter
      (fun item => !item.isCommandEntry && decide (item.category=command.category))=
        (getItems command.category).map (listedItem command.category) := by
  have hentries : (initializePaletteRegistry.map (@commandEntry α)).filter
      (fun item => !item.isCommandEntry && decide (item.category=command.category))=[] := by
    rw [List.filter_eq_nil_iff]
    intro item hitem
    obtain ⟨other,-,rfl⟩ := List.mem_map.mp hitem
    exact Bool.false_ne_true
  have hlisted : ∀ other∈initializePaletteRegistry,
      ((getItems other.category).map (listedItem other.category)).filter
        (fun item => !item.isCommandEntry && decide (item.category=command.category))=
          if other=command then (getItems command.category).map (listedItem command.category)
          else [] := by
    intro other hother
    by_cases hsame : other=command
    · rw [if_pos hsame,hsame,List.filter_eq_self]
      intro item hitem
      obtain ⟨listing,-,rfl⟩ := List.mem_map.mp hitem
      exact decide_eq_true rfl
    · rw [if_neg hsame,List.filter_eq_nil_iff]
      intro item hitem
      obtain ⟨listing,-,rfl⟩ := List.mem_map.mp hitem
      intro hkept
      exact hsame (category_unique hother h (of_decide_eq_true hkept))
  unfold reloadPaletteItems
  rw [List.filter_append,hentries,List.nil_append,List.filter_flatMap,List.flatMap_congr hlisted]
  exact flatMap_single registry_nodup h _

/-- Once there is something to search for, whatever is typed more only drops
items from the list. Choosing the entry of a command acts on nothing and lists
exactly what the command lists, in its order. -/
theorem palette_search (lists : CandidateLists V) (getItems : PaletteCategory → List (Listing α)) :
    (∀ (registry : List PaletteCommand) (query more : Bytes) (items : List (PaletteItem α)),
      (parsePaletteQuery registry query).terms≠[] →
      (filteredIndices registry (query++more) items).Sublist
        (filteredIndices registry query items)) ∧
    ∀ (palette : Palette α V) (index : ℕ), ∀ command∈initializePaletteRegistry,
      palette.items=reloadPaletteItems initializePaletteRegistry getItems → palette.ic≠none →
      palette.items[index]?=some (commandEntry command) →
      let chosen := selectPaletteItem initializePaletteRegistry lists index palette
      chosen.acted=palette.acted ∧ chosen.view=some (lists.build chosen.filtered) ∧
        chosen.filtered.filterMap (chosen.items[·]?)=
          (getItems command.category).map (listedItem command.category) := by
  refine ⟨fun registry query more items hterms => ?_,?_⟩
  · unfold filteredIndices
    exact (List.monotone_filter_right _ fun entry h => isListed_append hterms h).map _
  · intro palette index command hcommand hitems hic hentry chosen
    have hchosen : chosen=rebuildPaletteMenu initializePaletteRegistry lists {palette with
        query := slash::(commandEntry command : PaletteItem α).commandToken++[32]} := by
      dsimp only [chosen,selectPaletteItem]
      rw [hentry]
      rfl
    unfold rebuildPaletteMenu at hchosen
    rw [if_neg hic] at hchosen
    rw [hchosen]
    refine ⟨rfl,rfl,?_⟩
    dsimp only
    rw [filteredIndices_items,List.filter_congr fun item _ => isListed_entry hcommand item,hitems,
      items_entry hcommand]

/-- Pages of five candidates, of which the first one is shown. -/
def firstPages : CandidateLists (List ℕ) where
  build indices := indices
  candidates view := view
  page view := view.take 5
  cursorIndex _ := some 0
  turnPage _ view := view
  moveCursor _ view := view
  candidates_build _ := rfl
  candidates_turnPage _ _ := rfl
  candidates_moveCursor _ _ := rfl
  page_sublist view := List.take_sublist 5 view

/-- Two scenes. -/
def someItems : PaletteCategory → List (Listing ℕ)
  | .scene => [⟨ascii "raw",ascii "raw scene",1⟩,⟨ascii "mail",ascii "mail scene",2⟩]
  | _ => []

/-- The entry of the scenes, third in the list, lists the two scenes. -/
theorem palette_search_scenes :
    let palette : Palette ℕ (List ℕ) :=
      showPaletteMenu initializePaletteRegistry firstPages someItems (some 7) {}
    let chosen := selectPaletteItem initializePaletteRegistry firstPages 2 palette
    (filteredIndices initializePaletteRegistry [109,97] palette.items).Sublist
      (filteredIndices initializePaletteRegistry [109] palette.items) ∧
    chosen.acted=[] ∧ chosen.filtered.filterMap (chosen.items[·]?)=
      (someItems .scene).map (listedItem .scene) := by
  intro palette chosen
  have hsearch := palette_search firstPages someItems
  obtain ⟨hacted,-,hlisted⟩ := hsearch.2 palette 2
    ⟨ascii "scene",ascii "scene",ascii "s",ascii "Switch dictation scene",.scene⟩
    (by decide +kernel) rfl (Option.some_ne_none 7) rfl
  exact ⟨hsearch.1 _ [109] [97] _ (List.cons_ne_nil _ _),hacted,hlisted⟩

end Choosing

end Vinput.PaletteSearch
