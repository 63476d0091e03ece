import Vinput.FileDownload

/-!
# What a finished download has stored

A download succeeds by the status of its answer alone. Its file is complete
just if the bytes reached the temporary file and that file was moved, or if
the destination held the same bytes already.
-/

namespace Vinput.DownloadCompleteness

open ArchiveExtraction (Files Place lastPlace)
open FileDownload FilePaths FileTree

section Streams

/-- A write that does not fail extends the stream. -/
theorem write_bytes {stream : Stream} {data : List UInt8} {answer : WriteAnswer}
    (h : (stream.write data answer).2≠false) :
    (stream.write data answer).1.bytes=stream.bytes++data := by
  cases answer with
  | kept => simp [Stream.write,Stream.bytes]
  | written => simp [Stream.write,Stream.bytes]
  | failed reached => exact absurd rfl h

/-- A stream has all bytes of the chunks if none of them was refused. -/
theorem receive_bytes {stream : Stream} {ending : Ending} {chunks : List Chunk}
    {code : ℕ} (h : (receive stream ending chunks).2=.status code) :
    (receive stream ending chunks).1.bytes=stream.bytes++chunks.flatMap Chunk.data := by
  induction chunks generalizing stream with
  | nil => simp [receive]
  | cons chunk rest ih =>
    rw [receive] at h ⊢
    by_cases hcancelled : chunk.cancelled=true
    · rw [if_pos hcancelled] at h
      cases h
    · rw [if_neg hcancelled] at h ⊢
      dsimp only at h ⊢
      by_cases hrefused : (stream.write chunk.data chunk.answer).2=false
      · rw [if_pos hrefused] at h
        cases h
      · rw [if_neg hrefused] at h ⊢
        rw [ih h,write_bytes hrefused,List.flatMap_cons,List.append_assoc]

/-- The bytes that are written of those kept back. -/
def reachedBytes (kept : List UInt8) : Option ℕ → List UInt8
  | none => kept
  | some reached => kept.take reached

/-- What the stream keeps back when all chunks are received. -/
def keptBack (exchange : Exchange) : List UInt8 :=
  (receive ⟨[],[]⟩ exchange.ending exchange.chunks).1.pending

/-- Flushing works, or what is written by it and by closing is just what was kept
back. -/
def Reaches (exchange : Exchange) : Prop :=
  ∀ reached, exchange.flush=some reached →
    (keptBack exchange).take reached++reachedBytes (keptBack exchange) exchange.close=keptBack exchange

/-- The whole body is stored just if all that is kept back reaches the file. -/
theorem received_body {exchange : Exchange} {code : ℕ} (h : exchange.received.2=.status code) :
    exchange.received.1=exchange.body ↔ Reaches exchange := by
  have hbytes : (receive ⟨[],[]⟩ exchange.ending exchange.chunks).1.bytes=
      Stream.bytes ⟨[],[]⟩++exchange.chunks.flatMap Chunk.data := receive_bytes h
  have hbody : exchange.body=
      (receive ⟨[],[]⟩ exchange.ending exchange.chunks).1.stored++keptBack exchange := hbytes.symm
  rw [Exchange.received,hbody,Reaches]
  dsimp only
  cases exchange.flush with
  | none =>
    cases exchange.close <;> simp [Stream.drain,keptBack]
  | some reached =>
    have hdrained : (((receive ⟨[],[]⟩ exchange.ending exchange.chunks).1.drain
        (some reached)).drain exchange.close).stored=
          (receive ⟨[],[]⟩ exchange.ending exchange.chunks).1.stored++
            ((keptBack exchange).take reached++reachedBytes (keptBack exchange) exchange.close) := by
      cases exchange.close <;> simp [Stream.drain,keptBack,reachedBytes]
    rw [hdrained,List.append_cancel_left_eq]
    simp

end Streams

section Exchanges

variable {files written later : Files} {start parent tmp : Place}
  {parts : List (Element (List Char))} {exchange : Exchange} {words : String}
  {last : Option (Element (List Char))} {body : List UInt8}

/-- The last part of a path leads to a file with just these bytes. -/
def Holds (files : Files) (parent : Place) (last : Option (Element (List Char)))
    (body : List UInt8) : Prop :=
  ∃ place, walk files maxLinks parent last.toList=some place ∧ files.get place=some (.file body)

/-- The temporary file has a name of its own. -/
theorem tmpName_ne (name time : List Char) : tmpName (some (.name name)) time≠name := by
  intro h
  have hlength := congrArg List.length h
  simp [tmpName,filename] at hlength

/-- A part of a path that is no name leads to a directory. -/
theorem entryAt_directory (hparent : files.get parent=some .directory)
    (hlast : ∀ name, last≠some (.name name)) :
    walk files maxLinks parent last.toList=some (entryAt parent last) ∧
      files.get (entryAt parent last)=some .directory := by
  cases last with
  | none => exact ⟨walk_nil,hparent⟩
  | some part =>
    cases part with
    | name name => exact absurd rfl (hlast name)
    | here =>
      rw [Option.toList_some,walk_here]
      exact ⟨walk_nil,hparent⟩
    | up =>
      rw [Option.toList_some,walk_up]
      exact ⟨walk_nil,parent_directory hparent⟩

/-- A file that stands in its directory is what its name leads to. -/
theorem holds_name {name : List Char} {node : Node (List Char) (List UInt8)}
    (hnode : files.get (parent++[name])=some node)
    (hlink : ∀ absolute target, node≠.link absolute target) :
    Holds files parent (some (.name name)) body ↔ node=.file body := by
  rw [Holds,Option.toList_some,walk_node hnode hlink]
  constructor
  · rintro ⟨place,hplace,hfile⟩
    rw [← Option.some.inj hplace,hnode] at hfile
    exact Option.some.inj hfile
  · rintro rfl
    exact ⟨_,rfl,hnode⟩

/-- The temporary file in the directory of the destination. -/
structure Opened (made written : Files) (parent tmp : Place) (last : Option (Element (List Char)))
    (time : List Char) (bytes : List UInt8) : Prop where
  there : made.get parent=some .directory
  tmp_eq : tmp=parent++[tmpName last time]
  write : made.writeFile tmp bytes=some written

variable {made : Files} {time : List Char} {bytes : List UInt8}

/-- What stands where while the file is open. -/
theorem Opened.get (h : Opened made written parent tmp last time bytes) (path : Place) :
    written.get path=if tmp=path then some (.file bytes) else made.get path :=
  Tree.get_writeFile h.write

/-- The temporary file is no directory. -/
theorem Opened.tmp_file (h : Opened made written parent tmp last time bytes) :
    written.isDirectory tmp=false := by
  rw [Tree.isDirectory,h.get,if_pos rfl]

theorem Opened.keeps_directory (h : Opened made written parent tmp last time bytes) {path : Place}
    (hdirectory : made.get path=some .directory) : written.get path=some .directory := by
  rw [h.get,if_neg]
  · exact hdirectory
  · rintro rfl
    have hwrite := h.write
    rw [Tree.writeFile_directory (Tree.isDirectory_iff.mpr hdirectory)] at hwrite
    cases hwrite

/-- The temporary file does not stand above what is named like the destination. -/
theorem Opened.tmp_apart {name : List Char}
    (h : Opened made written parent tmp (some (.name name)) time bytes) :
    ¬tmp<+:parent++[name] := by
  intro hwithin
  have hlength : tmp.length=(parent++[name]).length := by simp [h.tmp_eq]
  have hsame := hwithin.eq_of_length hlength
  rw [h.tmp_eq] at hsame
  exact tmpName_ne name time (List.cons.inj (List.append_cancel_left hsame)).1

/-- No directory stands at the temporary file or below it. -/
theorem Opened.tmp_bare (h : Opened made written parent tmp last time bytes) {path : Place}
    (hdirectory : made.get path=some .directory) : ¬tmp<+:path := by
  rintro ⟨below,rfl⟩
  have hfile : written.get tmp=some (.file bytes) := by rw [h.get,if_pos rfl]
  have hbelow := h.keeps_directory hdirectory
  cases below with
  | nil =>
    rw [List.append_nil,hfile] at hbelow
    cases hbelow
  | cons name rest =>
    have hthere : written.get (tmp++name::rest)≠none := by simp [hbelow]
    rw [written.get_above hthere] at hfile
    cases hfile

/-- The temporary file is not moved over a directory. -/
theorem Opened.rename_directory (h : Opened made written parent tmp last time bytes)
    (hdirectory : made.isDirectory (entryAt parent last)=true) :
    written.rename tmp (entryAt parent last)=none :=
  Tree.rename_directory h.tmp_file
    (Tree.isDirectory_iff.mpr (h.keeps_directory (Tree.isDirectory_iff.mp hdirectory)))

/-- What is no directory is a name in its directory. -/
theorem entryAt_name (hparent : files.get parent=some .directory)
    (hfile : files.isDirectory (entryAt parent last)=false) : ∃ name, last=some (.name name) := by
  by_contra hlast
  have hnames : ∀ name, last≠some (.name name) := fun name hname => hlast ⟨name,hname⟩
  rw [Tree.isDirectory_iff.mpr (entryAt_directory hparent hnames).2] at hfile
  cases hfile

/-- The temporary file takes the place of anything that is no directory. -/
theorem Opened.rename_file (h : Opened made written parent tmp last time bytes)
    (hfile : made.isDirectory (entryAt parent last)=false) :
    ∃ later, written.rename tmp (entryAt parent last)=some later ∧
      later.get (entryAt parent last)=some (.file bytes) := by
  obtain ⟨name,rfl⟩ := entryAt_name h.there hfile
  have hother : tmp≠parent++[name] := fun hsame => h.tmp_apart (hsame ▸ List.prefix_refl _)
  have hwritten : written.isDirectory (parent++[name])=false := by
    rw [Tree.isDirectory,h.get,if_neg hother]
    exact hfile
  have hmovable : Movable written tmp (parent++[name]) := by
    constructor
    · rw [h.get,if_pos rfl]
      rfl
    · rw [List.dropLast_concat]
      exact ⟨by simp,Tree.isDirectory_iff.mpr (h.keeps_directory h.there)⟩
    · exact h.tmp_apart
    · intro _
      rw [h.tmp_file,hwritten]
      exact ⟨rfl,fun hdirectory => by cases hdirectory⟩
  refine ⟨written.move tmp (parent++[name]) hmovable,?_,?_⟩
  · rw [entryAt,Tree.rename,if_neg hother,dif_pos hmovable]
  · rw [entryAt,Tree.get_move,if_pos (List.prefix_refl _),List.drop_length,List.append_nil,h.get,
      if_pos rfl]

/-- What is discarded does not touch anything else. -/
theorem discard_get {path : Place} (hpath : ¬tmp<+:path) :
    (exchange.discard written tmp).get path=written.get path := by
  rw [Exchange.discard]
  split_ifs
  · cases hremoved : written.remove tmp with
    | none => rfl
    | some removed =>
      rw [Tree.remove] at hremoved
      split_ifs at hremoved
      rw [← Option.some.inj hremoved,Option.getD_some,Tree.get_removeAll,if_neg hpath]
  · rfl

/-- When the destination holds the body after a file was to be put in its place:
all of it reached the temporary file, or it stood there before. -/
def Placed (exchange : Exchange) (made written : Files) (parent tmp : Place)
    (last : Option (Element (List Char))) : Prop :=
  let target := entryAt parent last
  if exchange.renames=true ∧ made.isDirectory target=false then Reaches exchange
  else made.get target=some (.file exchange.body) ∨
    (∃ absolute link, made.get target=some (.link absolute link)) ∧
      Holds (exchange.discard written tmp) parent last exchange.body

/-- Discarding the temporary file leaves what else stood there. -/
theorem Opened.discard_get (h : Opened made written parent tmp last time bytes) {path : Place}
    (hpath : ¬tmp<+:path) : (exchange.discard written tmp).get path=made.get path := by
  rw [DownloadCompleteness.discard_get hpath,h.get,if_neg]
  rintro rfl
  exact hpath (List.prefix_refl _)

/-- A destination that is no link holds what stood there before. -/
theorem Opened.discarded (h : Opened made written parent tmp last time bytes)
    (hlink : ∀ absolute link, made.get (entryAt parent last)≠some (.link absolute link)) :
    Holds (exchange.discard written tmp) parent last body ↔
      made.get (entryAt parent last)=some (.file body) := by
  by_cases hname : ∃ name, last=some (.name name)
  · obtain ⟨name,rfl⟩ := hname
    rw [entryAt] at hlink ⊢
    have hget : (exchange.discard written tmp).get (parent++[name])=made.get (parent++[name]) :=
      h.discard_get h.tmp_apart
    cases hnode : made.get (parent++[name]) with
    | none =>
      rw [hnode] at hget
      have hwalk : walk (exchange.discard written tmp) maxLinks parent [.name name]=none :=
        walk_missing hget
      simp [Holds,hwalk]
    | some node =>
      rw [hnode] at hget hlink
      rw [holds_name hget fun absolute link hsame => hlink absolute link (by rw [hsame])]
      simp
  · have hnames : ∀ name, last≠some (.name name) := fun name hsame => hname ⟨name,hsame⟩
    have hthere : (exchange.discard written tmp).get parent=some .directory := by
      rw [h.discard_get (h.tmp_bare h.there),h.there]
    obtain ⟨hwalk,hentry⟩ := entryAt_directory hthere hnames
    obtain ⟨_,hmade⟩ := entryAt_directory h.there hnames
    rw [hmade,Holds,hwalk]
    simp [hentry]

/-- An accepted exchange has a status. -/
theorem accepted_status (h : exchange.accepted=true) :
    ∃ code, exchange.received.2=.status code := by
  rw [Exchange.accepted] at h
  split at h
  · rename_i code hcode
    exact ⟨code,hcode⟩
  · cases h

/-- An accepted file is in its place just if it was moved or stood there before. -/
theorem Opened.finish (h : Opened made written parent tmp last time exchange.received.1)
    (haccepted : exchange.accepted=true) :
    Holds (exchange.finish written tmp (entryAt parent last)) parent last exchange.body ↔
      Placed exchange made written parent tmp last := by
  have hleft : Holds (exchange.discard written tmp) parent last exchange.body ↔
      made.get (entryAt parent last)=some (.file exchange.body) ∨
        (∃ absolute link, made.get (entryAt parent last)=some (.link absolute link)) ∧
          Holds (exchange.discard written tmp) parent last exchange.body := by
    by_cases hlink : ∃ absolute link, made.get (entryAt parent last)=some (.link absolute link)
    · obtain ⟨absolute,link,hlink⟩ := hlink
      simp [hlink]
    · have hplain : Holds (exchange.discard written tmp) parent last exchange.body ↔
          made.get (entryAt parent last)=some (.file exchange.body) :=
        h.discarded fun absolute link hsame => hlink ⟨absolute,link,hsame⟩
      rw [hplain]
      simp [hlink]
  rw [Exchange.finish,if_neg (by simp [haccepted]),Placed]
  by_cases hrenames : exchange.renames=true
  · rw [if_pos hrenames]
    by_cases hfile : made.isDirectory (entryAt parent last)=false
    · obtain ⟨later,hmoved,hget⟩ := h.rename_file hfile
      obtain ⟨name,rfl⟩ := entryAt_name h.there hfile
      simp only [hmoved,hrenames,hfile,and_self,if_true]
      obtain ⟨code,hcode⟩ := accepted_status haccepted
      rw [entryAt] at hget
      rw [holds_name hget (by simp),← received_body hcode]
      simp
    · have hdirectory : made.isDirectory (entryAt parent last)=true := by simpa using hfile
      simp only [h.rename_directory hdirectory,hdirectory,hrenames]
      rw [if_neg (by simp)]
      exact hleft
  · simp only [hrenames,Bool.false_eq_true,false_and,if_false]
    exact hleft

end Exchanges

section Downloads

variable {files : Files} {start parent : Place} {parts : List (Element (List Char))}
  {exchange : Exchange} {words : String} {attempts : List Attempt} {last : Result}

/-- The tree once the directory of the destination is made. -/
def madeFor (files : Files) (start : Place) (parts : List (Element (List Char))) : Request → Files
  | .get exchange => (makeDirectories exchange.allowed files start parts.dropLast).tree
  | .copy allowed _ => (makeDirectories allowed files start parts.dropLast).tree
  | _ => files

/-- The bytes that an address stands for. -/
def Request.body : Request → Option (List UInt8)
  | .get exchange => some exchange.body
  | .copy _ (.ok bytes) => some bytes
  | _ => none

/-- The destination holds just the body that was received. -/
def Stored (files later : Files) (start : Place) (parts : List (Element (List Char)))
    (request : Request) : Prop :=
  ∃ parent body, directoryAt (madeFor files start parts request) start parts.dropLast=some parent ∧
    Request.body request=some body ∧ Holds later parent parts.getLast? body

/-- When a request that succeeded leaves the body at the destination. -/
def Delivered (files : Files) (start : Place) (parts : List (Element (List Char)))
    (request : Request) : Prop :=
  match request with
  | .get exchange => ∃ parent written,
      directoryAt (madeFor files start parts request) start parts.dropLast=some parent ∧
        (madeFor files start parts request).writeFile
          (parent++[tmpName parts.getLast? exchange.time]) exchange.received.1=some written ∧
        Placed exchange (madeFor files start parts request) written parent
          (parent++[tmpName parts.getLast? exchange.time]) parts.getLast?
  | _ => True

/-- A request that succeeded was accepted, and its file was opened. -/
theorem exchange_ok (h : (exchange.execute files start parts).2.ok=true) :
    exchange.accepted=true ∧ ∃ parent written,
      directoryAt (madeFor files start parts (.get exchange)) start parts.dropLast=some parent ∧
        Opened (madeFor files start parts (.get exchange)) written parent
          (parent++[tmpName parts.getLast? exchange.time]) parts.getLast? exchange.time
          exchange.received.1 ∧
        (exchange.execute files start parts).1=exchange.finish written
          (parent++[tmpName parts.getLast? exchange.time]) (entryAt parent parts.getLast?) := by
  rw [Exchange.execute] at h ⊢
  rw [madeFor]
  cases hparent : directoryAt (makeDirectories exchange.allowed files start parts.dropLast).tree start
      parts.dropLast with
  | none =>
    rw [hparent] at h
    cases h
  | some parent =>
    rw [hparent] at h
    dsimp only at h ⊢
    cases hwritten : if exchange.opens then
        (makeDirectories exchange.allowed files start parts.dropLast).tree.writeFile
          (parent++[tmpName parts.getLast? exchange.time]) exchange.received.1 else none with
    | none =>
      rw [hwritten] at h
      cases h
    | some written =>
      rw [hwritten] at h
      split_ifs at hwritten
      have hopened : Opened (makeDirectories exchange.allowed files start parts.dropLast).tree written
          parent (parent++[tmpName parts.getLast? exchange.time]) parts.getLast? exchange.time
          exchange.received.1 := ⟨(directoryAt_eq hparent).2,rfl,hwritten⟩
      refine ⟨?_,parent,written,rfl,hopened,rfl⟩
      dsimp only at h
      rw [Exchange.response] at h
      rw [Exchange.accepted]
      split_ifs at h
      · cases h
      · cases hending : exchange.received.2 with
        | status code =>
          rw [hending] at h
          simpa [HttpResponse.ok] using h
        | cancelled =>
          rw [hending] at h
          cases h
        | failed message =>
          rw [hending] at h
          simp [HttpResponse.ok] at h

/-- What is written to where a path leads is found there. -/
theorem copyTarget_holds {made copied : Files} {last : Option (Element (List Char))}
    {bytes : List UInt8} (hthere : made.get parent=some .directory)
    (hcopied : made.writeFile (copyTarget made parent last) bytes=some copied) :
    Holds copied parent last bytes := by
  have hget : copied.get (copyTarget made parent last)=some (.file bytes) := by
    rw [Tree.get_writeFile hcopied,if_pos rfl]
  by_cases hname : ∃ name, last=some (.name name)
  · obtain ⟨name,rfl⟩ := hname
    rw [copyTarget,lastPlace] at hcopied hget
    cases hwalk : walk made maxLinks parent [.name name] with
    | some place =>
      rw [hwalk,Option.getD_some] at hcopied hget
      exact ⟨place,walk_writeFile hthere hwalk hcopied,hget⟩
    | none =>
      rw [hwalk,Option.getD_none] at hget
      rw [holds_name hget (by simp)]
  · have htarget : copyTarget made parent last=entryAt parent last := by
      rw [copyTarget.eq_def]
      split
      · rename_i name
        exact absurd ⟨name,rfl⟩ hname
      · rfl
    have hentry := (entryAt_directory hthere fun name hlast => hname ⟨name,hlast⟩).2
    rw [htarget,Tree.writeFile_directory (Tree.isDirectory_iff.mpr hentry)] at hcopied
    cases hcopied

/-- A local file that was copied is at the destination. -/
theorem copyFile_ok {allowed : Place → Bool} {source : Except (Option (List UInt8)) (List UInt8)}
    (h : (copyFile allowed files start parts words source).2.ok=true) :
    Stored files (copyFile allowed files start parts words source).1 start parts
      (.copy allowed source) := by
  rw [copyFile] at h ⊢
  rw [Stored,madeFor]
  dsimp only at h ⊢
  generalize (makeDirectories allowed files start parts.dropLast).tree=made at h ⊢
  cases hparent : directoryAt made start parts.dropLast with
  | none =>
    rw [hparent] at h
    simp [HttpResponse.ok] at h
  | some parent =>
    rw [hparent] at h
    dsimp only at h ⊢
    cases source with
    | error leftover => simp [HttpResponse.ok] at h
    | ok bytes =>
      dsimp only at h ⊢
      cases hcopied : made.writeFile (copyTarget made parent parts.getLast?) bytes with
      | none =>
        rw [hcopied] at h
        simp [HttpResponse.ok] at h
      | some copied =>
        exact ⟨parent,bytes,rfl,rfl,copyTarget_holds (directoryAt_eq hparent).2 hcopied⟩

/-- A request that succeeded leaves its body at the destination just if it was
delivered. -/
theorem execute_ok {request : Request} {url : List Char}
    (h : (execute words files start parts url request).2.ok=true) :
    Stored files (execute words files start parts url request).1 start parts request ↔
      Delivered files start parts request := by
  cases request with
  | invalid => simp [execute,HttpResponse.ok] at h
  | cancelled => cases h
  | copy allowed source =>
    have hstored := copyFile_ok h
    exact ⟨fun _ => trivial,fun _ => hstored⟩
  | get exchange =>
    obtain ⟨haccepted,parent,written,hparent,hopened,hfinish⟩ := exchange_ok h
    rw [execute,hfinish]
    constructor
    · rintro ⟨other,body,hother,hbody,hholds⟩
      rw [hparent] at hother
      obtain rfl := Option.some.inj hother
      obtain rfl := Option.some.inj hbody
      exact ⟨parent,written,hparent,hopened.write,(hopened.finish haccepted).mp hholds⟩
    · rintro ⟨other,written',hother,hwritten,hplaced⟩
      rw [hparent] at hother
      obtain rfl := Option.some.inj hother
      rw [hopened.write] at hwritten
      obtain rfl := Option.some.inj hwritten
      exact ⟨parent,exchange.body,hparent,rfl,(hopened.finish haccepted).mpr hplaced⟩

/-- A result is a success when the answer is. -/
theorem populateResult_ok {url : List Char} {response : HttpResponse}
    (h : (populateResult url response).ok=true) : response.ok=true := by
  rw [populateResult] at h
  split_ifs at h with hok
  exact (Bool.and_eq_true_iff.mp hok).1

/-- What is told of an attempt that is made. -/
def attemptResult (words : String) (start : Place) (parts : List (Element (List Char)))
    (files : Files) (attempt : Attempt) : Result :=
  populateResult attempt.url (execute words files start parts attempt.url attempt.request).2

/-- None of the attempts that are made succeeds. -/
def AllFail (words : String) (start : Place) (parts : List (Element (List Char))) :
    Files → List Attempt → Prop
  | _,[] => True
  | files,attempt::rest =>
    (attempt.url≠[] → (attemptResult words start parts files attempt).ok=false) ∧
      AllFail words start parts (attempted words start parts files attempt) rest

/-- The first attempt that succeeds, and the tree before it. -/
structure Succeeds (words : String) (start : Place) (parts : List (Element (List Char)))
    (files : Files) (attempts : List Attempt) (before : Files) (attempt : Attempt) : Prop where
  first : ∃ earlier rest, attempts=earlier++attempt::rest ∧
    before=earlier.foldl (attempted words start parts) files ∧
      AllFail words start parts files earlier
  made : attempt.url≠[]
  ok : (attemptResult words start parts before attempt).ok=true

/-- An attempt that fails is passed over. -/
theorem Succeeds.cons {before : Files} {attempt found : Attempt}
    (hfail : attempt.url≠[] → (attemptResult words start parts files attempt).ok=false)
    (h : Succeeds words start parts (attempted words start parts files attempt) attempts before found) :
    Succeeds words start parts files (attempt::attempts) before found := by
  obtain ⟨⟨earlier,rest,hattempts,hbefore,hearlier⟩,hmade,hok⟩ := h
  refine ⟨⟨attempt::earlier,rest,?_,?_,hfail,hearlier⟩,hmade,hok⟩
  · rw [hattempts,List.cons_append]
  · rw [hbefore,List.foldl_cons]

/-- A download that succeeds does so with one of its attempts. -/
theorem downloadUrls_ok (hlast : last.ok=false)
    (h : (downloadUrls words start parts files last attempts).2.ok=true) :
    ∃ before attempt, Succeeds words start parts files attempts before attempt ∧
      (downloadUrls words start parts files last attempts).1=
        (execute words before start parts attempt.url attempt.request).1 := by
  induction attempts generalizing files last with
  | nil =>
    rw [downloadUrls,hlast] at h
    cases h
  | cons attempt rest ih =>
    simp only [downloadUrls] at h ⊢
    by_cases hcancelled : attempt.cancelledBefore=true
    · rw [if_pos hcancelled] at h
      cases h
    rw [if_neg hcancelled] at h ⊢
    by_cases hurl : attempt.url=[]
    · rw [if_pos hurl] at h ⊢
      obtain ⟨before,found,hfound,hfiles⟩ := ih hlast h
      refine ⟨before,found,Succeeds.cons (fun hmade => absurd hurl hmade) ?_,hfiles⟩
      rwa [attempted,if_pos hurl]
    rw [if_neg hurl] at h ⊢
    by_cases hok : (attemptResult words start parts files attempt).ok=true
    · rw [attemptResult] at hok
      rw [if_pos hok] at h ⊢
      exact ⟨files,attempt,⟨⟨[],rest,rfl,rfl,trivial⟩,hurl,hok⟩,rfl⟩
    have hfail : (attemptResult words start parts files attempt).ok=false := by simpa using hok
    rw [attemptResult] at hok
    rw [if_neg hok] at h ⊢
    split_ifs at h ⊢
    · exact absurd h hok
    · obtain ⟨before,found,hfound,hfiles⟩ := ih (by simpa using hok) h
      refine ⟨before,found,Succeeds.cons (fun _ => hfail) ?_,hfiles⟩
      rwa [attempted,if_neg hurl]

/-- A download that succeeds leaves the body of the attempt that succeeded at the
destination just if that was delivered. -/
theorem downloadFile_ok {removes : Bool}
    (h : (downloadFile words removes files start parts attempts).2.ok=true) :
    ∃ before attempt, Succeeds words start parts files attempts before attempt ∧
      (Stored before (downloadFile words removes files start parts attempts).1 start parts
          attempt.request ↔ Delivered before start parts attempt.request) := by
  have hok : (downloadUrls words start parts files ⟨false,""⟩ attempts).2.ok=true := by
    rw [downloadFile] at h
    by_contra hnot
    rw [if_neg hnot] at h
    split at h
    · split_ifs at h
      · exact hnot h
      · exact hnot h
    · exact hnot h
  rw [downloadFile,if_pos hok]
  obtain ⟨before,attempt,hsucceeds,hfiles⟩ := downloadUrls_ok rfl hok
  refine ⟨before,attempt,hsucceeds,?_⟩
  rw [hfiles]
  exact execute_ok (populateResult_ok hsucceeds.ok)

end Downloads

end Vinput.DownloadCompleteness
