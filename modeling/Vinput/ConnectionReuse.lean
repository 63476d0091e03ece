import Vinput.ConnectionPool
import Vinput.InterleavedRuns

/-!
# What a reused connection was made for

The identity of a request determines the scheme and every proxy variable, so a
connection of the pool is set up as a new one would be. Whatever the threads
do, a connection serves one request at a time and one identity for good.
-/

namespace Vinput.ConnectionReuse

open InterleavedRuns LabelledFields SinglePlaces ConnectionPool

section Identity

variable {url origin : Text} {uc other : UrlComponents} {env env' : Environment}
  {request request' : HttpRequest}

/-- A scheme is a word of small letters. -/
theorem parseScheme_letters {scheme rest : Text} {announced : Bool}
    (h : parseScheme url=some (scheme,announced,rest)) : ∀ c∈scheme, 'a' ≤ c ∧ c ≤ 'z' := by
  unfold parseScheme at h
  split at h
  · split at h
    · next hletters =>
      cases h
      intro c hc
      exact of_decide_eq_true (List.all_eq_true.mp hletters.2 c hc)
    · cases h
  · split at h <;> cases h <;> exact fun c hc => absurd hc List.not_mem_nil

/-- A URL keeps the scheme it begins with. -/
theorem parseUrl_scheme (h : parseUrl url=some uc) :
    ∃ announced rest, parseScheme url=some (uc.scheme,announced,rest) := by
  obtain ⟨⟨scheme,announced,rest⟩,hscheme,hrest⟩ := Option.bind_eq_some_iff.mp h
  suffices hsame : uc.scheme=scheme from ⟨announced,rest,by rw [hsame]; exact hscheme⟩
  dsimp only [parseBehindScheme] at hrest
  split at hrest
  · split at hrest
    · cases hrest
    · obtain ⟨parts,-,hparts⟩ := Option.map_eq_some_iff.mp hrest
      rw [←hparts]
      unfold parseBehindHost
      dsimp only
      split <;> rfl
  · cases hrest
    rfl

theorem colon_not_mem_scheme (h : parseUrl url=some uc) : ':'∉uc.scheme := by
  obtain ⟨announced,rest,hscheme⟩ := parseUrl_scheme h
  intro hmem
  exact absurd (parseScheme_letters hscheme ':' hmem).1 (by decide)

/-- The origin tells the scheme. -/
theorem scheme_of_origin (h : parseUrl url=some uc) {url' : Text} (h' : parseUrl url'=some other)
    (horigin : originOf uc=originOf other) : uc.scheme=other.scheme := by
  have hclean := colon_not_mem_scheme h
  exact (LineSplitting.line_unique hclean (colon_not_mem_scheme h') horigin).1

/-- The names of the variables have no equals sign. -/
theorem kVariables_clean : ∀ name∈kVariables, '='∉name := by decide

/-- No variable begins like the policy of a proxy of the request. -/
theorem kVariables_start : ∀ name∈kVariables, name.head?≠some 'c' := by decide

/-- A proxy of its own is told from the policy of the environment. -/
theorem custom_ne_signature (proxy : Text) :
    "custom=".toList++proxy≠buildProxyPolicySignature env := by
  intro h
  unfold buildProxyPolicySignature at h
  rcases record_start kVariables fun name => (env name).map Subtype.val with
    hempty | ⟨name,hmem,rest,hrest⟩
  · rw [hempty] at h
    cases h
  · rw [hrest] at h
    have hstart := kVariables_start name hmem
    cases name with
    | nil => exact absurd hmem (by decide)
    | cons first name =>
      have hfirst : 'c'=first := (List.cons.inj h).1
      exact hstart (congrArg some hfirst.symm)

/-- Equal signatures: the eight variables are equal. -/
theorem env_of_signature (h : buildProxyPolicySignature env=buildProxyPolicySignature env') :
    ∀ name∈kVariables, (env name).map Subtype.val=(env' name).map Subtype.val := by
  have hclean : ∀ (env : Environment) (name : Text),
      ∀ content∈(env name).map Subtype.val, '\x00'∉content := by
    intro env name content hcontent
    obtain ⟨words,-,rfl⟩ := Option.map_eq_some_iff.mp hcontent
    exact words.property
  exact record_injective (by decide) kVariables_clean (hclean env) (hclean env') h

/-- The set up reads of the environment nothing but the eight variables. -/
theorem configure_congr (hproxy : request.proxy=request'.proxy) (hscheme : uc.scheme=other.scheme)
    (henv : request.proxy=none → ∀ name∈kVariables,
      (env name).map Subtype.val=(env' name).map Subtype.val) :
    configure env request uc=configure env' request' other := by
  unfold configure
  rw [←hproxy]
  cases hcase : request.proxy with
  | some proxy => rfl
  | none =>
    have hget : ∀ name : String, name.toList∈kVariables → getenv env name=getenv env' name :=
      fun name hmem => henv hcase name.toList hmem
    dsimp only
    unfold ambientProxy noProxyPatterns
    rw [hscheme,hget "https_proxy" (by decide),hget "HTTPS_PROXY" (by decide),
      hget "http_proxy" (by decide),hget "HTTP_PROXY" (by decide),hget "all_proxy" (by decide),
      hget "ALL_PROXY" (by decide),hget "no_proxy" (by decide),hget "NO_PROXY" (by decide)]

/-- Requests of one identity have one scheme and set a connection up alike. -/
theorem configure_of_identity (h : parseUrl request.url=some uc)
    (h' : parseUrl request'.url=some other)
    (hid : identityOf env request uc=identityOf env' request' other) :
    configure env request uc=configure env' request' other := by
  have horigin : originOf uc=originOf other := congrArg ConnectionIdentity.origin hid
  have hpolicy : proxyPolicyOf env request.proxy=proxyPolicyOf env' request'.proxy :=
    congrArg ConnectionIdentity.proxyPolicy hid
  have hscheme := scheme_of_origin h h' horigin
  cases hleft : request.proxy with
  | none =>
    cases hright : request'.proxy with
    | none =>
      rw [hleft,hright] at hpolicy
      exact configure_congr (hleft.trans hright.symm) hscheme fun _ => env_of_signature hpolicy
    | some proxy' =>
      rw [hleft,hright] at hpolicy
      exact absurd hpolicy.symm (custom_ne_signature proxy'.val)
  | some proxy =>
    cases hright : request'.proxy with
    | none =>
      rw [hleft,hright] at hpolicy
      exact absurd hpolicy (custom_ne_signature proxy.val)
    | some proxy' =>
      rw [hleft,hright] at hpolicy
      have hsame : proxy=proxy' := Subtype.ext (List.append_cancel_left hpolicy)
      refine configure_congr (by rw [hleft,hright,hsame]) hscheme ?_
      intro hnone
      rw [hleft] at hnone
      cases hnone

end Identity

section Steps

variable {shared : Shared} {pc : Pc} {threads : InterleavedRuns.Pool Shared Pc} {thread made : ℕ}
  {current : Served} {cli : Client} {front : List Client}

/-- The identity a request is served under. -/
def identity (current : Served) : ConnectionIdentity :=
  identityOf current.env current.request current.uc

/-- The connections of one identity, replaced. -/
def withPool (shared : Shared) (id : ConnectionIdentity) (clients : List Client) : Shared :=
  {shared with pool := Function.update shared.pool id clients}

/-- What one step of a thread can do. -/
inductive Moves (shared : Shared) : Pc → Shared×Pc → Prop where
  | stay (pc : Pc) : Moves shared pc (shared,pc)
  | take (current : Served) (cli : Client) (front : List Client)
      (url : parseUrl current.request.url=some current.uc)
      (last : shared.pool (identity current)=front++[cli]) :
      Moves shared .idle (withPool shared (identity current) front,
        .sending current {cli with served := current::cli.served})
  | make (current : Served) (url : parseUrl current.request.url=some current.uc) :
      Moves shared .idle ({shared with made := shared.made+1},
        .sending current ⟨shared.made,originOf current.uc,
          configure current.env current.request current.uc,[current]⟩)
  | keep (current : Served) (cli : Client)
      (room : (shared.pool (identity current)).length<kMaxPoolPerHost) :
      Moves shared (.sending current cli) (withPool shared (identity current)
        (shared.pool (identity current)++[cli]),.idle)
  | drop (current : Served) (cli : Client) : Moves shared (.sending current cli) (shared,.idle)

/-- A request that begins moves a connection at most. -/
theorem begin_moves (env : Environment) (request : HttpRequest) (shared : Shared) :
    Moves shared .idle (begin env request shared) := by
  unfold begin
  cases hurl : parseUrl request.url with
  | none => exact .stay .idle
  | some uc =>
    dsimp only
    split
    · exact .stay .idle
    · unfold acquire
      cases hlast : (shared.pool (identityOf env request uc)).getLast? with
      | none => exact .make ⟨env,request,uc⟩ hurl
      | some cli =>
        have hpool : shared.pool (identityOf env request uc)=
            (shared.pool (identityOf env request uc)).dropLast++[cli] :=
          (List.dropLast_append_getLast? cli hlast).symm
        exact .take ⟨env,request,uc⟩ cli _ hurl hpool

theorem execute_moves (oracle : Oracle) (shared : Shared) (pc : Pc) :
    Moves shared pc (execute oracle shared pc) := by
  cases oracle with
  | begin env request =>
    cases pc with
    | idle => exact begin_moves env request shared
    | sending current cli => exact .stay _
  | finish ending =>
    cases pc with
    | idle => exact .stay _
    | sending current cli =>
      dsimp only [execute]
      split
      · unfold release
        split
        · next hroom => exact .keep current cli hroom
        · exact .drop current cli
      · exact .drop current cli

/-- A connection that was made for an identity and has served no other. -/
structure Belongs (made : ℕ) (id : ConnectionIdentity) (cli : Client) : Prop where
  serial : cli.serial< made
  origin : cli.origin=id.origin
  served : ∀ past∈cli.served, parseUrl past.request.url=some past.uc ∧ identity past=id
  setUp : ∃ first∈cli.served, cli.settings=configure first.env first.request first.uc

/-- A connection belongs to its identity later too. -/
theorem Belongs.mono {id : ConnectionIdentity} (h : Belongs made id cli) :
    Belongs (made+1) id cli :=
  ⟨Nat.lt_succ_of_lt h.serial,h.origin,h.served,h.setUp⟩

/-- Where the connections are: with an identity or with a thread. -/
def hold (threads : InterleavedRuns.Pool Shared Pc) : ConnectionIdentity⊕ℕ → List ℕ
  | .inl id => (threads.shared.pool id).map Client.serial
  | .inr thread => (threads.pcs thread).client.toList.map Client.serial

/-- What every reachable state keeps. -/
structure Inv (threads : InterleavedRuns.Pool Shared Pc) : Prop where
  room : ∀ id, (threads.shared.pool id).length ≤ kMaxPoolPerHost
  filed : ∀ id, ∀ cli∈threads.shared.pool id, Belongs threads.shared.made id cli
  held : ∀ thread current cli, threads.pcs thread=.sending current cli →
    current∈cli.served ∧ Belongs threads.shared.made (identity current) cli
  single : Single (hold threads)

/-- A thread has one connection at most. -/
theorem hold_thread_nodup (threads : InterleavedRuns.Pool Shared Pc) (thread : ℕ) :
    (hold threads (.inr thread)).Nodup := by
  dsimp only [hold]
  cases (threads.pcs thread).client with
  | none => exact List.nodup_nil
  | some cli => exact List.nodup_singleton _

/-- A thread that sends holds its connection. -/
theorem hold_sending (h : threads.pcs thread=.sending current cli) :
    hold threads (.inr thread)=[cli.serial] := by
  dsimp only [hold]
  rw [h]
  rfl

/-- The other threads keep what they have. -/
theorem hold_update_of_ne {other : ℕ} (h : other≠thread) (shared : Shared) (pc : Pc) :
    hold ⟨shared,Function.update threads.pcs thread pc⟩ (.inr other)=hold threads (.inr other) := by
  dsimp only [hold]
  rw [Function.update_of_ne h]

/-- A thread holds what its place says. -/
theorem hold_update_self (shared : Shared) (pc : Pc) :
    hold ⟨shared,Function.update threads.pcs thread pc⟩ (.inr thread)=
      pc.client.toList.map Client.serial := by
  dsimp only [hold]
  rw [Function.update_self]

/-- The pool of an identity is replaced. -/
theorem withPool_self (shared : Shared) (id : ConnectionIdentity) (clients : List Client) :
    (withPool shared id clients).pool id=clients := by
  dsimp only [withPool]
  rw [Function.update_self]

theorem withPool_of_ne {id other : ConnectionIdentity} (h : other≠id) (shared : Shared)
    (clients : List Client) : (withPool shared id clients).pool other=shared.pool other := by
  dsimp only [withPool]
  rw [Function.update_of_ne h]

/-- The acting thread has what it is told, the others what they had. -/
theorem held_update {shared : Shared} {pc : Pc} (made : threads.shared.made ≤ shared.made)
    (self : ∀ current cli, pc=.sending current cli →
      current∈cli.served ∧ Belongs shared.made (identity current) cli)
    (h : Inv threads) (other : ℕ) (current : Served) (cli : Client)
    (hpc : Function.update threads.pcs thread pc other=.sending current cli) :
    current∈cli.served ∧ Belongs shared.made (identity current) cli := by
  by_cases hother : other=thread
  · subst hother
    rw [Function.update_self] at hpc
    exact self current cli hpc
  · rw [Function.update_of_ne hother] at hpc
    obtain ⟨hmem,hbelongs⟩ := h.held other current cli hpc
    exact ⟨hmem,hbelongs.serial.trans_le made,hbelongs.origin,hbelongs.served,hbelongs.setUp⟩

/-- A pooled connection is taken by one thread and filed nowhere else. -/
theorem single_take (h : Inv threads) {id : ConnectionIdentity} {current : Served}
    {served : List Served} (last : threads.shared.pool id=front++[cli]) :
    Single (hold ⟨withPool threads.shared id front,Function.update threads.pcs thread
      (.sending current {cli with served := served})⟩) := by
  have hall := h.single.once (.inl id)
  dsimp only [hold] at hall
  rw [last,List.map_append] at hall
  have hmem : cli.serial∈hold threads (.inl id) := by
    dsimp only [hold]
    rw [last,List.map_append]
    exact List.mem_append_right _ List.mem_cons_self
  refine h.single.moved cli.serial (.inr thread) ?_ ?_ ?_
  · rintro (other | other)
    · by_cases hid : other=id
      · subst hid
        dsimp only [hold]
        rw [withPool_self]
        exact (List.nodup_append.mp hall).1
      · dsimp only [hold]
        rw [withPool_of_ne hid]
        exact h.single.once (.inl other)
    · exact hold_thread_nodup _ other
  · rintro (other | other) serial hserial hne
    · by_cases hid : other=id
      · subst hid
        dsimp only [hold] at hserial ⊢
        rw [withPool_self] at hserial
        rw [last,List.map_append]
        exact List.mem_append_left _ hserial
      · dsimp only [hold] at hserial ⊢
        rw [withPool_of_ne hid] at hserial
        exact hserial
    · by_cases hother : other=thread
      · subst hother
        rw [hold_update_self] at hserial
        exact absurd (List.mem_singleton.mp hserial) hne
      · rw [hold_update_of_ne hother] at hserial
        exact hserial
  · rintro (other | other) hserial
    · by_cases hid : other=id
      · subst hid
        dsimp only [hold] at hserial
        rw [withPool_self] at hserial
        exact absurd rfl ((List.nodup_append.mp hall).2.2 _ hserial _ List.mem_cons_self)
      · dsimp only [hold] at hserial
        rw [withPool_of_ne hid] at hserial
        exact absurd (Sum.inl.inj (h.single.alone (.inl other) (.inl id) _ hserial hmem)) hid
    · by_cases hother : other=thread
      · exact congrArg Sum.inr hother
      · rw [hold_update_of_ne hother] at hserial
        exact absurd (h.single.alone (.inr other) (.inl id) _ hserial hmem) nofun

/-- A new connection has a serial nothing else has. -/
theorem single_make (h : Inv threads) {current : Served}
    (hserial : cli.serial=threads.shared.made) :
    Single (hold ⟨{threads.shared with made := threads.shared.made+1},
      Function.update threads.pcs thread (.sending current cli)⟩) := by
  have hfresh : ∀ place, cli.serial∉hold threads place := by
    rintro (id | other) hmem
    · obtain ⟨old,hin,hsame⟩ := List.mem_map.mp hmem
      have hlt := (h.filed id old hin).serial
      omega
    · cases hpc : threads.pcs other with
      | idle =>
        dsimp only [hold] at hmem
        rw [hpc] at hmem
        exact absurd hmem List.not_mem_nil
      | sending past old =>
        rw [hold_sending hpc] at hmem
        have hsame := List.mem_singleton.mp hmem
        have hlt := (h.held other past old hpc).2.serial
        omega
  refine h.single.moved cli.serial (.inr thread) ?_ ?_ ?_
  · rintro (id | other)
    · exact h.single.once (.inl id)
    · exact hold_thread_nodup _ other
  · rintro (id | other) serial hmem hne
    · exact hmem
    · by_cases hother : other=thread
      · subst hother
        rw [hold_update_self] at hmem
        exact absurd (List.mem_singleton.mp hmem) hne
      · rw [hold_update_of_ne hother] at hmem
        exact hmem
  · rintro (id | other) hmem
    · exact absurd hmem (hfresh (.inl id))
    · by_cases hother : other=thread
      · exact congrArg Sum.inr hother
      · rw [hold_update_of_ne hother] at hmem
        exact absurd hmem (hfresh (.inr other))

/-- A connection that is given back is filed once. -/
theorem single_keep (h : Inv threads) {id : ConnectionIdentity}
    (hpc : threads.pcs thread=.sending current cli) :
    Single (hold ⟨withPool threads.shared id (threads.shared.pool id++[cli]),
      Function.update threads.pcs thread .idle⟩) := by
  have hmem : cli.serial∈hold threads (.inr thread) := by
    rw [hold_sending hpc]
    exact List.mem_cons_self
  have habsent : ∀ id, cli.serial∉hold threads (.inl id) :=
    fun id hin => absurd (h.single.alone (.inl id) (.inr thread) _ hin hmem) nofun
  refine h.single.moved cli.serial (.inl id) ?_ ?_ ?_
  · rintro (other | other)
    · by_cases hid : other=id
      · subst hid
        dsimp only [hold]
        rw [withPool_self,List.map_append]
        refine List.nodup_append.mpr ⟨h.single.once (.inl other),List.nodup_singleton _,?_⟩
        intro serial hserial own hown heq
        have hcli : own=cli.serial := List.mem_singleton.mp hown
        exact habsent other (hcli ▸ heq ▸ hserial)
      · dsimp only [hold]
        rw [withPool_of_ne hid]
        exact h.single.once (.inl other)
    · exact hold_thread_nodup _ other
  · rintro (other | other) serial hserial hne
    · by_cases hid : other=id
      · subst hid
        dsimp only [hold] at hserial
        rw [withPool_self,List.map_append] at hserial
        rcases List.mem_append.mp hserial with hin | hnew
        · exact hin
        · exact absurd (List.mem_singleton.mp hnew) hne
      · dsimp only [hold] at hserial
        rw [withPool_of_ne hid] at hserial
        exact hserial
    · by_cases hother : other=thread
      · subst hother
        rw [hold_update_self] at hserial
        exact absurd hserial List.not_mem_nil
      · rw [hold_update_of_ne hother] at hserial
        exact hserial
  · rintro (other | other) hserial
    · by_cases hid : other=id
      · exact congrArg Sum.inl hid
      · dsimp only [hold] at hserial
        rw [withPool_of_ne hid] at hserial
        exact absurd hserial (habsent other)
    · by_cases hother : other=thread
      · subst hother
        rw [hold_update_self] at hserial
        exact absurd hserial List.not_mem_nil
      · rw [hold_update_of_ne hother] at hserial
        exact absurd (h.single.alone (.inr other) (.inr thread) _ hserial hmem)
          fun heq => hother (Sum.inr.inj heq)

/-- A connection that is given up is nowhere. -/
theorem single_drop (h : Inv threads) :
    Single (hold ⟨threads.shared,Function.update threads.pcs thread .idle⟩) := by
  refine h.single.mono ?_ ?_
  · rintro (id | other)
    · exact h.single.once (.inl id)
    · exact hold_thread_nodup _ other
  · rintro (id | other) serial hserial
    · exact hserial
    · by_cases hother : other=thread
      · subst hother
        rw [hold_update_self] at hserial
        exact absurd hserial List.not_mem_nil
      · rw [hold_update_of_ne hother] at hserial
        exact hserial

/-- One step of one thread keeps the invariant. -/
theorem inv_moves {next : Shared×Pc} (h : Inv threads)
    (moves : Moves threads.shared (threads.pcs thread) next) :
    Inv ⟨next.1,Function.update threads.pcs thread next.2⟩ := by
  generalize hpc : threads.pcs thread=pc at moves
  cases moves with
  | stay =>
    rw [←hpc]
    dsimp only
    rw [Function.update_eq_self]
    exact h
  | take current cli front hurl hlast =>
    have hcli : Belongs threads.shared.made (identity current) cli := by
      refine h.filed (identity current) cli ?_
      rw [hlast]
      exact List.mem_append_right _ List.mem_cons_self
    refine ⟨?_,?_,held_update (Nat.le_refl _) ?_ h,single_take h hlast⟩
    · intro id
      by_cases hid : id=identity current
      · have hroom := h.room id
        subst hid
        rw [hlast,List.length_append] at hroom
        dsimp only
        rw [withPool_self]
        omega
      · dsimp only
        rw [withPool_of_ne hid]
        exact h.room id
    · intro id other hmem
      by_cases hid : id=identity current
      · subst hid
        dsimp only at hmem
        rw [withPool_self] at hmem
        refine h.filed (identity current) other ?_
        rw [hlast]
        exact List.mem_append_left _ hmem
      · dsimp only at hmem
        rw [withPool_of_ne hid] at hmem
        exact h.filed id other hmem
    · intro past old heq
      cases heq
      obtain ⟨first,hfirst,hsettings⟩ := hcli.setUp
      refine ⟨List.mem_cons_self,hcli.serial,hcli.origin,?_,
        first,List.mem_cons_of_mem _ hfirst,hsettings⟩
      intro past hpast
      rcases List.mem_cons.mp hpast with rfl | hold
      · exact ⟨hurl,rfl⟩
      · exact hcli.served past hold
  | make current hurl =>
    refine ⟨h.room,fun id other hmem => (h.filed id other hmem).mono,
      held_update (Nat.le_succ _) ?_ h,single_make h rfl⟩
    intro past old heq
    cases heq
    refine ⟨List.mem_cons_self,Nat.lt_succ_self _,rfl,?_,current,List.mem_cons_self,rfl⟩
    intro past hpast
    rw [List.mem_singleton.mp hpast]
    exact ⟨hurl,rfl⟩
  | keep current cli hroom =>
    refine ⟨?_,?_,held_update (Nat.le_refl _) nofun h,single_keep h hpc⟩
    · intro id
      by_cases hid : id=identity current
      · subst hid
        dsimp only
        rw [withPool_self,List.length_append]
        exact hroom
      · dsimp only
        rw [withPool_of_ne hid]
        exact h.room id
    · intro id other hmem
      by_cases hid : id=identity current
      · subst hid
        dsimp only at hmem
        rw [withPool_self] at hmem
        rcases List.mem_append.mp hmem with hin | hnew
        · exact h.filed _ other hin
        · rw [List.mem_singleton.mp hnew]
          exact (h.held thread current cli hpc).2
      · dsimp only at hmem
        rw [withPool_of_ne hid] at hmem
        exact h.filed id other hmem
  | drop current cli =>
    exact ⟨h.room,h.filed,held_update (Nat.le_refl _) nofun h,single_drop h⟩

/-- The invariant holds at the start. -/
theorem inv_start : Inv ConnectionPool.start := by
  refine ⟨fun _ => Nat.zero_le _,?_,nofun,?_,?_⟩
  · exact fun id cli hmem => absurd hmem List.not_mem_nil
  · rintro (id | thread) <;> exact List.nodup_nil
  · rintro (id | thread) place serial hmem <;> exact absurd hmem List.not_mem_nil

/-- The state after a schedule of requests. -/
def reached (schedule : List (ℕ×Oracle)) : InterleavedRuns.Pool Shared Pc :=
  run (InterleavedRuns.Pool.step execute) ConnectionPool.start schedule

/-- Every schedule keeps the invariant. -/
theorem inv_reached (schedule : List (ℕ×Oracle)) : Inv (reached schedule) := by
  refine run_invariant ?_ schedule inv_start
  intro threads label h
  exact inv_moves h (execute_moves label.2 threads.shared (threads.pcs label.1))

end Steps

section Results

/-- However requests interleave, a connection in use is set up as a new one
would be for the request that uses it, every request it has served before had
the same host, the same credential and the same set up, no other thread uses
it and it is not in the pool. -/
theorem connection_like_new (schedule : List (ℕ×Oracle)) {thread : ℕ} {current : Served}
    {cli : Client} (hpc : (reached schedule).pcs thread=.sending current cli) :
    cli.origin=originOf current.uc ∧
    cli.settings=configure current.env current.request current.uc ∧
    (∀ past∈cli.served, originOf past.uc=originOf current.uc ∧
      extractAuthorization past.request.headers=extractAuthorization current.request.headers ∧
      configure past.env past.request past.uc=
        configure current.env current.request current.uc) ∧
    (∀ other past old, other≠thread → (reached schedule).pcs other=.sending past old →
      old.serial≠cli.serial) ∧
    ∀ id, ((reached schedule).shared.pool id).length ≤ kMaxPoolPerHost ∧
      ∀ old∈(reached schedule).shared.pool id, old.serial≠cli.serial := by
  have hinv := inv_reached schedule
  obtain ⟨hcurrent,hbelongs⟩ := hinv.held thread current cli hpc
  have hurl := (hbelongs.served current hcurrent).1
  have hmem : cli.serial∈hold (reached schedule) (.inr thread) := by
    rw [hold_sending hpc]
    exact List.mem_cons_self
  have hsame : ∀ past∈cli.served, configure past.env past.request past.uc=
      configure current.env current.request current.uc := by
    intro past hpast
    obtain ⟨hpastUrl,hid⟩ := hbelongs.served past hpast
    exact configure_of_identity hpastUrl hurl hid
  refine ⟨hbelongs.origin,?_,?_,?_,?_⟩
  · obtain ⟨first,hfirst,hsettings⟩ := hbelongs.setUp
    rw [hsettings,hsame first hfirst]
  · intro past hpast
    have hid := (hbelongs.served past hpast).2
    exact ⟨congrArg ConnectionIdentity.origin hid,congrArg ConnectionIdentity.credential hid,
      hsame past hpast⟩
  · intro other past old hother hold
    refine hinv.single.ne (fun heq => hother (Sum.inr.inj heq)) ?_ hmem
    rw [hold_sending hold]
    exact List.mem_cons_self
  · intro id
    refine ⟨hinv.room id,?_⟩
    intro old hin
    have hfiled : old.serial∈hold (reached schedule) (.inl id) := List.mem_map_of_mem hin
    have hplace : (Sum.inl id : ConnectionIdentity⊕ℕ)≠.inr thread := nofun
    exact hinv.single.ne hplace hfiled hmem

/-- A second thread of one identity takes the connection the first gave back. -/
theorem connection_like_new_reused : ∃ (schedule : List (ℕ×Oracle)) (current : Served)
    (cli : Client), (reached schedule).pcs 1=.sending current cli ∧ cli.served.length=2 ∧
      cli.settings=configure current.env current.request current.uc := by
  let env : Environment := fun name => if name="http_proxy".toList then
    some ⟨"proxy:3128".toList,by decide⟩ else none
  let request : HttpRequest := {url := "http://host/a".toList}
  let schedule : List (ℕ×Oracle) :=
    [(0,.begin env request),(0,.finish .answered),(1,.begin env request)]
  have hpc : (reached schedule).pcs 1=.sending
      ⟨env,request,⟨"http".toList,"host".toList,[],"/a".toList,[]⟩⟩
      ⟨0,"http://host".toList,⟨some ("proxy".toList,3128),[]⟩,
        [⟨env,request,⟨"http".toList,"host".toList,[],"/a".toList,[]⟩⟩,
         ⟨env,request,⟨"http".toList,"host".toList,[],"/a".toList,[]⟩⟩]⟩ := by
    rfl
  exact ⟨schedule,_,_,hpc,rfl,(connection_like_new schedule hpc).2.1⟩

end Results

end Vinput.ConnectionReuse
