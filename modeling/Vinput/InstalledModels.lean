import Vinput.ResourceIds

/-!
# Installed models

A model is installed in a directory of its own below the directory of its
engine. The directories are listed by their identities, and looked up and
removed by them. The file system answers as given; what it resolves a path
to is normal.
-/

namespace Vinput.InstalledModels

open ResourceIds

section Manager

/-- Names from the outside in. -/
abbrev Path := List (List Char)

/-- What stands in the directory of an engine. -/
structure ModelEntry where
  name : List Char
  isDirectory : Bool
  /-- The manifest is a regular file. -/
  hasManifest : Bool

/-- What stands in the base directory. -/
structure EngineEntry where
  name : List Char
  isDirectory : Bool
  models : List ModelEntry

/-- Answers of the file system, or the reason of its failure. -/
structure Files where
  weaklyCanonical : Path → Except String Path
  exist : Path → Bool
  removeAll : Path → Option String

/-- A name that is passed over. -/
def isSkipped (name : List Char) : Bool :=
  isSpecial name || decide (name.head?=some '.')

/-- A model of an engine, with its identity and its path. -/
def installedModel (engine : List Char) (entry : ModelEntry) : Option (List Char×Path) :=
  if entry.isDirectory=false ∨ isSkipped entry.name then none
  else
    let path := [engine,entry.name]
    let id := modelIdFromPath path
    if id=[] ∨ entry.hasManifest=false then none else some (id,path)

/-- The models of all engines. -/
def installedModels (engines : List EngineEntry) : List (List Char×Path) :=
  engines.flatMap fun engine =>
    if engine.isDirectory=false ∨ isSkipped engine.name then []
    else engine.models.filterMap (installedModel engine.name)

/-- Neighbours that are equal are kept once. -/
def unique : List (List Char) → List (List Char)
  | [] => []
  | id::rest =>
    match rest.head? with
    | some next => if id=next then unique rest else id::unique rest
    | none => [id]

/-- Their identities. -/
def listModels (engines : List EngineEntry) : List (List Char) :=
  unique (((installedModels engines).map Prod.fst).mergeSort fun first second =>
    !decide (second<first))

/-- The directory of a model; no path is empty. -/
def modelDir (base : Path) (id : List Char) : Path :=
  let relativePath := modelPathForId id
  if relativePath=[] then [] else base++relativePath

/-- The path lies below the root. -/
def isPathWithinRoot (path root : Path) : Bool := root.isPrefixOf path

/-- The text of a path. -/
def showPath (path : Path) : String := String.ofList (path.flatMap fun name => '/'::name)

/-- The directory that was removed. -/
def remove (files : Files) (base : Path) (id : List Char) : Except String Path :=
  let requested := modelDir base id
  if requested=[] then .error ("invalid model id: "++String.ofList id)
  else
    match files.weaklyCanonical requested with
    | .error reason => .error ("failed to resolve model directory: "++reason)
    | .ok dir =>
      match files.weaklyCanonical base with
      | .error reason => .error ("failed to resolve model base directory: "++reason)
      | .ok root =>
        if isPathWithinRoot dir root=false then .error ("invalid model id: "++String.ofList id)
        else if files.exist dir=false then
          .error ("model directory does not exist: "++showPath dir)
        else
          match files.removeAll dir with
          | some reason => .error ("failed to remove model directory: "++reason)
          | none => .ok dir

end Manager

section Listing

variable {engines : List EngineEntry} {found : List Char×Path} {base : Path} {id : List Char}

/-- Duplicates are dropped, nothing else. -/
theorem mem_unique {ids : List (List Char)} : id∈unique ids ↔ id∈ids := by
  induction ids with
  | nil => rfl
  | cons first rest ih =>
    cases rest with
    | nil => rfl
    | cons next later =>
      rw [unique,List.head?_cons]
      dsimp only
      split_ifs with hsame
      · simp [ih,hsame]
      · rw [List.mem_cons,ih,← List.mem_cons]

theorem mem_listModels : id∈listModels engines ↔ ∃ path, (id,path)∈installedModels engines := by
  rw [listModels,mem_unique,List.mem_mergeSort,List.mem_map]
  constructor
  · rintro ⟨⟨_,path⟩,hfound,rfl⟩
    exact ⟨path,hfound⟩
  · rintro ⟨path,hfound⟩
    exact ⟨(id,path),hfound,rfl⟩

/-- A model is listed under the identity of its path. -/
theorem installed_id (h : found∈installedModels engines) :
    found.1=modelIdFromPath found.2 ∧ found.1≠[] := by
  obtain ⟨engine,_,hmodels⟩ := List.mem_flatMap.mp h
  split_ifs at hmodels
  · simp at hmodels
  obtain ⟨entry,_,hentry⟩ := List.mem_filterMap.mp hmodels
  simp only [installedModel] at hentry
  split_ifs at hentry with _ hrefused
  rw [← Option.some.inj hentry]
  exact ⟨rfl,fun hempty => hrefused (.inl hempty)⟩

/-- What the file system must answer for a directory to be removed. -/
structure Removes (files : Files) (base dir removed : Path) : Prop where
  resolved : files.weaklyCanonical dir=.ok removed
  inside : ∃ root, files.weaklyCanonical base=.ok root ∧ isPathWithinRoot removed root=true
  exist : files.exist removed=true
  removed : files.removeAll removed=none

/-- An identity is removed by removing its directory. -/
theorem remove_eq_ok {files : Files} {removed : Path} (hdir : modelDir base id≠[]) :
    remove files base id=.ok removed ↔ Removes files base (modelDir base id) removed := by
  rw [remove,if_neg hdir]
  constructor
  · intro h
    split at h
    · cases h
    rename_i dir hresolved
    split at h
    · cases h
    rename_i root hroot
    split_ifs at h with hinside hexist
    split at h
    · cases h
    rename_i hremoved
    obtain rfl := Except.ok.inj h
    exact ⟨hresolved,⟨root,hroot,by simpa using hinside⟩,by simpa using hexist,hremoved⟩
  · rintro ⟨hresolved,⟨root,hroot,hinside⟩,hexist,hremoved⟩
    simp [hresolved,hroot,hinside,hexist,hremoved]

/-- What is listed is found and removed under its identity. -/
structure Sound (files : Files) (base : Path) (engines : List EngineEntry) : Prop where
  found : ∀ id∈listModels engines, ∀ path, (id,path)∈installedModels engines →
    modelDir base id=base++path ∧
      ∀ removed, remove files base id=.ok removed ↔ Removes files base (base++path) removed
  distinct : ∀ found∈installedModels engines, ∀ other∈installedModels engines,
    found.1=other.1 → found.2=other.2

/-- Identities are sound when every path is plain. -/
theorem sound_iff (files : Files) (base : Path) (engines : List EngineEntry) :
    Sound files base engines ↔ ∀ found∈installedModels engines, PlainPath found.2 := by
  constructor
  · intro h found hfound
    obtain ⟨hid,hne⟩ := installed_id hfound
    have hdir := (h.found found.1 (mem_listModels.mpr ⟨found.2,hfound⟩) found.2 hfound).1
    rw [hid] at hne hdir
    rw [← model_path_of_id hne]
    rw [modelDir] at hdir
    split_ifs at hdir with hpath
    · obtain ⟨parent,leaf,hnames,_⟩ := idOf_ne_nil hne
      simp [hnames] at hdir
    · exact List.append_cancel_left hdir
  · intro h
    have hback : ∀ found∈installedModels engines, modelPathForId found.1=found.2 := by
      intro found hfound
      obtain ⟨hid,hne⟩ := installed_id hfound
      rw [hid] at hne ⊢
      exact (model_path_of_id hne).mpr (h found hfound)
    refine ⟨fun id _ path hfound => ?_,fun found hfound other hother hsame => ?_⟩
    · have hpath : modelPathForId id=path := hback (id,path) hfound
      obtain ⟨parent,leaf,hnames,_⟩ := h (id,path) hfound
      have hne : path≠[] := by
        dsimp only at hnames
        simp [hnames]
      have hdir : modelDir base id=base++path := by
        rw [modelDir,hpath]
        exact if_neg hne
      refine ⟨hdir,fun removed => ?_⟩
      rw [remove_eq_ok (by simp [hdir,hne]),hdir]
    · rw [← hback found hfound,← hback other hother,hsame]

end Listing

section Claim

/-- Identities always lead back from their paths. Paths lead back from their
identities just if their names are plain, and the models that are listed are
found, kept apart and removed by their identities just if all of them are. -/
theorem ids_and_paths (id type : List Char) (path : Path) (files : Files) (base : Path)
    (engines : List EngineEntry) :
    (modelPathForId id≠[] → modelIdFromPath (modelPathForId id)=id) ∧
      (scriptPathForId id≠[] → ∃ segments, splitResourceId id=some segments ∧
        scriptIdFromPath segments.type (scriptPathForId id)=id) ∧
      (modelIdFromPath path≠[] →
        (modelPathForId (modelIdFromPath path)=path ↔ PlainPath path)) ∧
      (scriptIdFromPath type path≠[] →
        (scriptPathForId (scriptIdFromPath type path)=path ↔ PlainPath path)) ∧
      (Sound files base engines ↔ ∀ found∈installedModels engines, PlainPath found.2) :=
  ⟨model_id_of_path,script_id_of_path,model_path_of_id,script_path_of_id,
    sound_iff files base engines⟩

/-- Two directories with one identity, which names the second. -/
theorem ambiguous_id :
    modelIdFromPath [['a','.','b'],['c']]=modelIdFromPath [['a'],['b','.','c']] ∧
      modelIdFromPath [['a','.','b'],['c']]≠[] ∧
      modelPathForId (modelIdFromPath [['a','.','b'],['c']])≠[['a','.','b'],['c']] := by
  decide +kernel

end Claim

end Vinput.InstalledModels
