import Vinput.ArchiveExtraction

/-!
# Downloads to files

A file is requested from one address after the other until one succeeds. The
bytes go to a temporary file beside the destination, which is moved into its
place afterwards. What the network and the system answer is given, and so is
what the stream makes of the bytes.
-/

namespace Vinput.FileDownload

open ArchiveExtraction (Files Place lastPlace lastPlace_inside)
open FilePaths FileTree
open InstalledModels (showPath)

section Streams

/-- What becomes of bytes that are given to a stream. -/
inductive WriteAnswer where
  | kept
  | written
  /-- Only so many bytes are written. -/
  | failed (reached : ℕ)

/-- The bytes in a file, and those its stream keeps back. -/
structure Stream where
  stored : List UInt8
  pending : List UInt8

/-- All bytes that a stream has been given. -/
def Stream.bytes (stream : Stream) : List UInt8 := stream.stored++stream.pending

/-- The stream, and whether it is still good. -/
def Stream.write (stream : Stream) (data : List UInt8) : WriteAnswer → Stream×Bool
  | .kept => (⟨stream.stored,stream.pending++data⟩,true)
  | .written => (⟨stream.stored++stream.pending++data,[]⟩,true)
  | .failed reached =>
    (⟨stream.stored++(stream.pending++data).take reached,stream.pending++data⟩,false)

/-- Write what is kept back, or only so many bytes of it. -/
def Stream.drain (stream : Stream) : Option ℕ → Stream
  | none => ⟨stream.stored++stream.pending,[]⟩
  | some reached => ⟨stream.stored++stream.pending.take reached,stream.pending⟩

/-- Bytes of a body, with the answers to receiving them. -/
structure Chunk where
  data : List UInt8
  cancelled : Bool
  answer : WriteAnswer

/-- How a request ends. -/
inductive Ending where
  | status (code : ℕ)
  | cancelled
  | failed (message : String)

/-- Receive the chunks until one of them is not taken. -/
def receive (stream : Stream) (ending : Ending) : List Chunk → Stream×Ending
  | [] => (stream,ending)
  | chunk::rest =>
    if chunk.cancelled then (stream,.cancelled)
    else
      let written := stream.write chunk.data chunk.answer
      if written.2=false then (written.1,.cancelled) else receive written.1 ending rest

end Streams

section Requests

/-- Answers to a request over the network. -/
structure Exchange where
  /-- Directories that the system makes. -/
  allowed : Place → Bool
  /-- The time in the name of the temporary file. -/
  time : List Char
  opens : Bool
  chunks : List Chunk
  ending : Ending
  /-- How many bytes were reached if flushing failed. -/
  flush : Option ℕ
  close : Option ℕ
  renames : Bool
  removes : Bool
  cancelledAfter : Bool

/-- All bytes that a server sends. -/
def Exchange.body (exchange : Exchange) : List UInt8 := exchange.chunks.flatMap Chunk.data

/-- What an address stands for, with the answers to asking for it. -/
inductive Request where
  | invalid
  /-- A local file, or what is left of the copy if it fails. -/
  | copy (allowed : Place → Bool) (source : Except (Option (List UInt8)) (List UInt8))
  | cancelled
  | get (exchange : Exchange)

/-- What a server answers. -/
structure HttpResponse where
  status : ℕ
  error : String
  cancelled : Bool

/-- The answer is a success. -/
def HttpResponse.ok (response : HttpResponse) : Bool :=
  decide (200 ≤ response.status) && decide (response.status<300) &&
    decide (response.error="") && !response.cancelled

/-- The answer of a request that was cancelled. -/
def cancelledResponse : HttpResponse := ⟨0,"Request cancelled",true⟩

/-- The directory a path leads to. -/
def directoryAt (files : Files) (start : Place) (parts : List (Element (List Char))) :
    Option Place :=
  (walk files maxLinks start parts).filter files.isDirectory

/-- Where the last part of a path stands in its directory. -/
def entryAt (parent : Place) : Option (Element (List Char)) → Place
  | some (.name name) => parent++[name]
  | some .up => parent.dropLast
  | _ => parent

/-- A part of a path as it is written. -/
def shown : Element (List Char) → List Char
  | .name name => name
  | .here => ['.']
  | .up => ['.','.']

/-- The last part of a path, if it is written. -/
def filename : Option (Element (List Char)) → List Char
  | some (.name name) => name
  | some .up => ['.','.']
  | _ => []

/-- The name of the temporary file. -/
def tmpName (last : Option (Element (List Char))) (time : List Char) : List Char :=
  filename last++['.','t','m','p','.']++time

/-- What reaches the temporary file, and how the request ends. -/
def Exchange.received (exchange : Exchange) : List UInt8×Ending :=
  let received := receive ⟨[],[]⟩ exchange.ending exchange.chunks
  (((received.1.drain exchange.flush).drain exchange.close).stored,received.2)

/-- The answer of an exchange. -/
def Exchange.response (exchange : Exchange) : HttpResponse :=
  if exchange.cancelledAfter then cancelledResponse
  else
    match exchange.received.2 with
    | .status code => ⟨code,"",false⟩
    | .cancelled => cancelledResponse
    | .failed message => ⟨0,message,false⟩

/-- The file is put in its place by these statuses only. -/
def Exchange.accepted (exchange : Exchange) : Bool :=
  match exchange.received.2 with
  | .status code => decide (200 ≤ code) && decide (code<300)
  | _ => false

/-- Remove the temporary file, if the system does. -/
def Exchange.discard (exchange : Exchange) (files : Files) (tmp : Place) : Files :=
  if exchange.removes then (files.remove tmp).getD files else files

/-- Move the temporary file into its place. A file that cannot be moved is
removed, and nothing tells of it. -/
def Exchange.finish (exchange : Exchange) (files : Files) (tmp target : Place) : Files :=
  if exchange.accepted=false then exchange.discard files tmp
  else
    match if exchange.renames then files.rename tmp target else none with
    | some renamed => renamed
    | none => exchange.discard files tmp

/-- Ask for a file over the network. -/
def Exchange.execute (exchange : Exchange) (files : Files) (start : Place)
    (parts : List (Element (List Char))) : Files×HttpResponse :=
  let last := parts.getLast?
  let name := tmpName last exchange.time
  let unopened : HttpResponse :=
    ⟨0,"Failed to open destination file: "++showPath (start++parts.dropLast.map shown++[name]),false⟩
  let made := (makeDirectories exchange.allowed files start parts.dropLast).tree
  match directoryAt made start parts.dropLast with
  | none => (made,unopened)
  | some parent =>
    match if exchange.opens then made.writeFile (parent++[name]) exchange.received.1 else none with
    | none => (made,unopened)
    | some opened => (exchange.finish opened (parent++[name]) (entryAt parent last),exchange.response)

/-- Where a file is copied to; the last part of its path may be a link. -/
def copyTarget (files : Files) (parent : Place) : Option (Element (List Char)) → Place
  | some (.name name) => lastPlace files parent (some (.name name))
  | last => entryAt parent last

/-- Copy a local file over the destination. -/
def copyFile (allowed : Place → Bool) (files : Files) (start : Place)
    (parts : List (Element (List Char))) (words : String) :
    Except (Option (List UInt8)) (List UInt8) → Files×HttpResponse :=
  fun source =>
    let failed : HttpResponse := ⟨404,"Failed to copy local file: "++words,false⟩
    let made := (makeDirectories allowed files start parts.dropLast).tree
    match directoryAt made start parts.dropLast with
    | none => (made,failed)
    | some parent =>
      let target := copyTarget made parent parts.getLast?
      match source with
      | .error leftover =>
        ((leftover.bind fun bytes => made.writeFile target bytes).getD made,failed)
      | .ok bytes =>
        match made.writeFile target bytes with
        | none => (made,failed)
        | some copied => (copied,⟨200,"",false⟩)

/-- Ask one address for the file. -/
def execute (words : String) (files : Files) (start : Place)
    (parts : List (Element (List Char))) (url : List Char) : Request → Files×HttpResponse
  | .invalid => (files,⟨0,"Invalid URL: "++String.ofList url,false⟩)
  | .copy allowed source => copyFile allowed files start parts words source
  | .cancelled => (files,cancelledResponse)
  | .get exchange => exchange.execute files start parts

end Requests

section Downloads

/-- An address, whether the download is cancelled before and after it, and what
asking for it answers. -/
structure Attempt where
  url : List Char
  cancelledBefore : Bool
  request : Request
  cancelledAfter : Bool

/-- What is told of a download. -/
structure Result where
  ok : Bool
  error : String

/-- The address is one of a web server. -/
def requiresHttpStatusCheck (url : List Char) : Bool :=
  ['h','t','t','p',':','/','/'].isPrefixOf url || ['h','t','t','p','s',':','/','/'].isPrefixOf url

/-- The result of an answer. -/
def populateResult (url : List Char) (response : HttpResponse) : Result :=
  let check := requiresHttpStatusCheck url
  if response.ok && (!check || decide (response.status=200)) then ⟨true,""⟩
  else if response.cancelled then ⟨false,"download cancelled"⟩
  else if response.error≠"" then ⟨false,"download failed: "++response.error⟩
  else if check && decide (response.status≠200) && decide (response.status≠0) then
    ⟨false,"download failed with HTTP "++toString response.status⟩
  else ⟨false,"download failed"⟩

/-- The tree after an attempt that is made. -/
def attempted (words : String) (start : Place) (parts : List (Element (List Char)))
    (files : Files) (attempt : Attempt) : Files :=
  if attempt.url=[] then files else (execute words files start parts attempt.url attempt.request).1

/-- Try the addresses until one succeeds or the download is cancelled. -/
def downloadUrls (words : String) (start : Place) (parts : List (Element (List Char))) :
    Files → Result → List Attempt → Files×Result
  | files,last,[] => (files,last)
  | files,last,attempt::rest =>
    if attempt.cancelledBefore then (files,⟨false,"download cancelled"⟩)
    else if attempt.url=[] then downloadUrls words start parts files last rest
    else
      let executed := execute words files start parts attempt.url attempt.request
      let result := populateResult attempt.url executed.2
      if result.ok then (executed.1,result)
      else if executed.2.cancelled || attempt.cancelledAfter then (executed.1,result)
      else downloadUrls words start parts executed.1 result rest

/-- Download a file; what is left of it is removed on failure, if the system
does. -/
def downloadFile (words : String) (removes : Bool) (files : Files) (start : Place)
    (parts : List (Element (List Char))) (attempts : List Attempt) : Files×Result :=
  let tried := downloadUrls words start parts files ⟨false,""⟩ attempts
  if tried.2.ok then tried
  else
    match directoryAt tried.1 start parts.dropLast with
    | some parent =>
      if removes then
        ((tried.1.remove (entryAt parent parts.getLast?)).getD tried.1,tried.2)
      else tried
    | none => tried

end Downloads

section Staying

variable {files written : Files} {root parent tmp : Place} {parts : List (Element (List Char))}
  {exchange : Exchange} {words : String}

/-- A directory is where a walk finds one. -/
theorem directoryAt_eq (h : directoryAt files root parts=some parent) :
    walk files maxLinks root parts=some parent ∧ files.get parent=some .directory := by
  obtain ⟨hwalk,hdirectory⟩ := Option.filter_eq_some_iff.mp h
  exact ⟨hwalk,Tree.isDirectory_iff.mp hdirectory⟩

/-- The last part of a path stays below, or leads to a directory that cannot
be replaced. -/
theorem entryAt_cases (hparent : root<+:parent) (hroot : root≠[])
    (last : Option (Element (List Char))) :
    root<+:entryAt parent last ∨ ∃ name, entryAt parent last++[name]=parent := by
  cases last with
  | none => exact .inl hparent
  | some part =>
    cases part with
    | here => exact .inl hparent
    | name name => exact .inl (hparent.trans (List.prefix_append _ _))
    | up =>
      have hne : parent≠[] := by
        rintro rfl
        exact hroot (List.prefix_nil.mp hparent)
      exact .inr ⟨parent.getLast hne,List.dropLast_append_getLast hne⟩

/-- Discarding changes the temporary file only. -/
theorem discard_changed (htmp : root<+:tmp) :
    Changed root written (exchange.discard written tmp) := by
  rw [Exchange.discard]
  split_ifs
  · cases hremove : written.remove tmp with
    | none => exact Changed.refl
    | some later => exact changed_remove htmp hremove
  · exact Changed.refl

/-- A file that is put in its place stays below the root. -/
theorem finish_changed (hplain : AllPlain root written) (hroot : root≠[]) (htmp : root<+:tmp)
    (hparent : root<+:parent) (hthere : written.get parent=some .directory)
    (hfile : written.isDirectory tmp=false) (last : Option (Element (List Char))) :
    Changed root written (exchange.finish written tmp (entryAt parent last)) := by
  rw [Exchange.finish]
  split_ifs with haccepted hrenames
  · exact discard_changed htmp
  · cases hmoved : written.rename tmp (entryAt parent last) with
    | none => exact discard_changed htmp
    | some renamed =>
      obtain hinside | ⟨name,hname⟩ := entryAt_cases hparent hroot last
      · exact changed_rename hplain htmp hinside hmoved
      · have hchild : (written.get (entryAt parent last++[name])).isSome=true := by
          rw [hname,hthere]
          rfl
        have hnone : written.rename tmp (entryAt parent last)=none :=
          Tree.rename_parent hchild hfile
        rw [hnone] at hmoved
        cases hmoved
  · exact discard_changed htmp

/-- The directory of a path that stays below the root. -/
structure Housed (files : Files) (root parent : Place) : Prop where
  plain : AllPlain root files
  inside : root<+:parent
  there : files.get parent=some .directory

/-- A directory that a path stays in lies inside. -/
theorem housed_directoryAt (hplain : AllPlain root files) (hstays : stays 0 parts=true)
    (h : directoryAt files root parts=some parent) : Housed files root parent := by
  obtain ⟨hwalk,hthere⟩ := directoryAt_eq h
  have hself : Inside root 0 root := ⟨List.prefix_refl root,Nat.le_refl _⟩
  exact ⟨hplain,walk_inside hplain.noLinks hself hstays hwalk,hthere⟩

theorem made_changed {allowed : Place → Bool} (hplain : AllPlain root files)
    (hstays : stays 0 parts=true) :
    Changed root files (makeDirectories allowed files root parts).tree :=
  changed_makeDirectories hplain.noLinks ⟨List.prefix_refl root,Nat.le_refl _⟩ hstays

/-- A file that is written into its directory. -/
theorem Housed.write {name : List Char} {bytes : List UInt8} (h : Housed files root parent)
    (hwrite : files.writeFile (parent++[name]) bytes=some written) :
    Changed root files written ∧ Housed written root parent ∧
      written.isDirectory (parent++[name])=false := by
  have hinside : root<+:parent++[name] := h.inside.trans (List.prefix_append _ _)
  have hchanged := changed_writeFile hinside hwrite
  have hother : parent++[name]≠parent := by simp
  refine ⟨hchanged,⟨h.plain.changed hchanged,h.inside,?_⟩,?_⟩
  · rw [Tree.get_writeFile hwrite,if_neg hother]
    exact h.there
  · rw [Tree.isDirectory,Tree.get_writeFile hwrite,if_pos rfl]

/-- An exchange changes nothing outside. -/
theorem exchange_changed (hplain : AllPlain root files) (hroot : root≠[])
    (hstays : stays 0 parts.dropLast=true) :
    Changed root files (exchange.execute files root parts).1 := by
  have hmade : Changed root files (makeDirectories exchange.allowed files root parts.dropLast).tree :=
    made_changed hplain hstays
  rw [Exchange.execute]
  cases hparent : directoryAt (makeDirectories exchange.allowed files root parts.dropLast).tree root
      parts.dropLast with
  | none => exact hmade
  | some parent =>
    dsimp only
    have hhoused := housed_directoryAt (hplain.changed hmade) hstays hparent
    cases hopened : if exchange.opens then
        (makeDirectories exchange.allowed files root parts.dropLast).tree.writeFile
          (parent++[tmpName parts.getLast? exchange.time]) exchange.received.1 else none with
    | none => exact hmade
    | some opened =>
      split_ifs at hopened
      obtain ⟨hwritten,hstill,hfile⟩ := hhoused.write hopened
      have htmp : root<+:parent++[tmpName parts.getLast? exchange.time] :=
        hstill.inside.trans (List.prefix_append _ _)
      exact hmade.trans (hwritten.trans
        (finish_changed hstill.plain hroot htmp hstill.inside hstill.there hfile _))

/-- A file is copied below the root, or over a directory. -/
theorem Housed.copyTarget (h : Housed files root parent) (hroot : root≠[])
    (last : Option (Element (List Char))) :
    root<+:copyTarget files parent last ∨ files.isDirectory (copyTarget files parent last)=true := by
  have hentry : root<+:entryAt parent last ∨ files.isDirectory (entryAt parent last)=true := by
    refine (entryAt_cases h.inside hroot last).imp_right ?_
    rintro ⟨name,hname⟩
    have hthere : files.get (entryAt parent last++[name])≠none := by
      rw [hname,h.there]
      simp
    exact Tree.isDirectory_iff.mpr (files.get_parent hthere)
  cases last with
  | none => exact hentry
  | some part =>
    cases part with
    | here => exact hentry
    | up => exact hentry
    | name name => exact .inl (lastPlace_inside h.plain.noLinks h.inside (some (.name name)))

/-- Removing the destination removes nothing outside. -/
theorem Housed.removed (h : Housed files root parent) (hroot : root≠[])
    (last : Option (Element (List Char))) :
    Changed root files ((files.remove (entryAt parent last)).getD files) := by
  cases hremoved : files.remove (entryAt parent last) with
  | none => exact Changed.refl
  | some later =>
    obtain hinside | ⟨name,hname⟩ := entryAt_cases h.inside hroot last
    · exact changed_remove hinside hremoved
    · have hchild : (files.get (entryAt parent last++[name])).isSome=true := by
        rw [hname,h.there]
        rfl
      have hnone : files.remove (entryAt parent last)=none := Tree.remove_parent hchild
      rw [hnone] at hremoved
      cases hremoved

/-- A file that is copied stays below the root. -/
theorem copyFile_changed {allowed : Place → Bool} {source : Except (Option (List UInt8)) (List UInt8)}
    (hplain : AllPlain root files) (hroot : root≠[]) (hstays : stays 0 parts.dropLast=true) :
    Changed root files (copyFile allowed files root parts words source).1 := by
  have hmade : Changed root files (makeDirectories allowed files root parts.dropLast).tree :=
    made_changed hplain hstays
  rw [copyFile]
  dsimp only
  generalize (makeDirectories allowed files root parts.dropLast).tree=made at hmade ⊢
  cases hparent : directoryAt made root parts.dropLast with
  | none => exact hmade
  | some parent =>
    dsimp only
    have hhoused := housed_directoryAt (hplain.changed hmade) hstays hparent
    have hwrite : ∀ bytes copied, made.writeFile (copyTarget made parent parts.getLast?) bytes=
        some copied → Changed root made copied := by
      intro bytes copied hcopied
      obtain hinside | hdirectory := hhoused.copyTarget hroot parts.getLast?
      · exact changed_writeFile hinside hcopied
      · rw [Tree.writeFile_directory hdirectory] at hcopied
        cases hcopied
    cases source with
    | ok bytes =>
      dsimp only
      cases hcopied : made.writeFile (copyTarget made parent parts.getLast?) bytes with
      | none => exact hmade
      | some copied => exact hmade.trans (hwrite bytes copied hcopied)
    | error leftover =>
      cases hleft : leftover.bind fun bytes =>
          made.writeFile (copyTarget made parent parts.getLast?) bytes with
      | none =>
        dsimp only
        rw [hleft]
        exact hmade
      | some copied =>
        dsimp only
        rw [hleft]
        obtain ⟨bytes,_,hcopied⟩ := Option.bind_eq_some_iff.mp hleft
        exact hmade.trans (hwrite bytes copied hcopied)

theorem execute_changed (hplain : AllPlain root files) (hroot : root≠[])
    (hstays : stays 0 parts.dropLast=true) (url : List Char) (request : Request) :
    Changed root files (execute words files root parts url request).1 := by
  cases request with
  | invalid => exact Changed.refl
  | copy allowed source => exact copyFile_changed hplain hroot hstays
  | cancelled => exact Changed.refl
  | get exchange => exact exchange_changed hplain hroot hstays

theorem downloadUrls_changed (hplain : AllPlain root files) (hroot : root≠[])
    (hstays : stays 0 parts.dropLast=true) (last : Result) (attempts : List Attempt) :
    Changed root files (downloadUrls words root parts files last attempts).1 := by
  induction attempts generalizing files last with
  | nil => exact Changed.refl
  | cons attempt rest ih =>
    have hexecuted : Changed root files (execute words files root parts attempt.url
        attempt.request).1 := execute_changed hplain hroot hstays attempt.url attempt.request
    simp only [downloadUrls]
    split_ifs
    · exact Changed.refl
    · exact ih hplain last
    · exact hexecuted
    · exact hexecuted
    · exact hexecuted.trans (ih (hplain.changed hexecuted) _)

/-- A download below a plain place stays there. -/
theorem downloadFile_changed (hplain : AllPlain root files) (hroot : root≠[])
    (hstays : stays 0 parts.dropLast=true) (removes : Bool) (attempts : List Attempt) :
    Changed root files (downloadFile words removes files root parts attempts).1 := by
  have htried : Changed root files (downloadUrls words root parts files ⟨false,""⟩ attempts).1 :=
    downloadUrls_changed hplain hroot hstays _ attempts
  rw [downloadFile]
  by_cases hok : (downloadUrls words root parts files ⟨false,""⟩ attempts).2.ok=true
  · rw [if_pos hok]
    exact htried
  · rw [if_neg hok]
    cases hparent : directoryAt (downloadUrls words root parts files ⟨false,""⟩ attempts).1 root
        parts.dropLast with
    | none => exact htried
    | some parent =>
      have hhoused := housed_directoryAt (hplain.changed htried) hstays hparent
      dsimp only
      split_ifs
      · exact htried.trans (hhoused.removed hroot parts.getLast?)
      · exact htried

end Staying

end Vinput.FileDownload
