import Mathlib.Tactic.DeriveFintype
import Vinput.InterleavedRuns
import Vinput.LineSplitting
import Vinput.VersionConstraint

/-!
# Labelled fields in one text

Optional values under a fixed list of names are written one after another,
each as its name, a mark, the value and a stop. When no name holds the mark
and no value holds the stop, the text tells every value and which are missing.
-/

namespace Vinput.LabelledFields

open LineSplitting

section Encoding

variable {α : Type*} (mark stop : α)

/-- One field; a missing value leaves no trace. -/
def field (name : List α) : Option (List α) → List α
  | none => []
  | some value => name++mark::(value++[stop])

/-- The fields of a list of names. -/
def record (names : List (List α)) (value : List α → Option (List α)) : List α :=
  names.flatMap fun name => field mark stop name (value name)

end Encoding

section Reading

variable {α : Type*} {mark stop : α} {names : List (List α)}
  {value other : List α → Option (List α)}

/-- A field that is there ends at its mark. -/
theorem field_some_append (name content rest : List α) :
    field mark stop name (some content)++rest=name++mark::(content++stop::rest) := by
  unfold field
  simp only [List.append_assoc,List.cons_append,List.nil_append]

/-- A record is empty or begins with the name of one of its fields. -/
theorem record_start (names : List (List α)) (value : List α → Option (List α)) :
    record mark stop names value=[] ∨ ∃ name∈names, ∃ rest,
      record mark stop names value=name++mark::rest := by
  induction names with
  | nil => exact .inl rfl
  | cons name names ih =>
    have hcons : record mark stop (name::names) value=
        field mark stop name (value name)++record mark stop names value := List.flatMap_cons
    cases hvalue : value name with
    | none =>
      rw [hcons,hvalue]
      rcases ih with hempty | ⟨later,hmem,rest,hrest⟩
      · exact .inl hempty
      · exact .inr ⟨later,List.mem_cons_of_mem _ hmem,rest,hrest⟩
    | some content =>
      refine .inr ⟨name,List.mem_cons_self,content++stop::record mark stop names value,?_⟩
      rw [hcons,hvalue,field_some_append]

/-- A field that is there cannot be read as the start of a record that
leaves its name out. -/
theorem field_ne_record {name content rest : List α} (hclean : ∀ later∈name::names, mark∉later)
    (hfresh : name∉names) :
    field mark stop name (some content)++rest≠record mark stop names other := by
  intro h
  rw [field_some_append] at h
  rcases @record_start _ mark stop names other with hempty | ⟨later,hmem,more,hmore⟩
  · rw [hempty] at h
    exact absurd h (by simp)
  · rw [hmore] at h
    have hsame := (line_unique (hclean name List.mem_cons_self)
      (hclean later (List.mem_cons_of_mem _ hmem)) h).1
    exact hfresh (hsame ▸ hmem)

/-- Equal records hold equal values. -/
theorem record_injective (hnames : names.Nodup) (hclean : ∀ name∈names, mark∉name)
    (hvalue : ∀ name, ∀ content∈value name, stop∉content)
    (hother : ∀ name, ∀ content∈other name, stop∉content)
    (h : record mark stop names value=record mark stop names other) :
    ∀ name∈names, value name=other name := by
  induction names with
  | nil => exact fun name hmem => absurd hmem List.not_mem_nil
  | cons name names ih =>
    have hfresh := (List.nodup_cons.mp hnames).1
    have hrest := ih (List.nodup_cons.mp hnames).2
      (fun later hmem => hclean later (List.mem_cons_of_mem _ hmem))
    have hcons : ∀ get : List α → Option (List α), record mark stop (name::names) get=
        field mark stop name (get name)++record mark stop names get := fun _ => List.flatMap_cons
    rw [hcons,hcons] at h
    have hboth : value name=other name ∧
        record mark stop names value=record mark stop names other := by
      cases hleft : value name with
      | none =>
        cases hright : other name with
        | none =>
          rw [hleft,hright] at h
          exact ⟨rfl,h⟩
        | some content =>
          rw [hleft,hright] at h
          exact absurd h.symm (field_ne_record hclean hfresh)
      | some content =>
        cases hright : other name with
        | none =>
          rw [hleft,hright] at h
          exact absurd h (field_ne_record hclean hfresh)
        | some content' =>
          rw [hleft,hright,field_some_append,field_some_append] at h
          have hinner := (List.cons.inj (List.append_cancel_left h)).2
          have hline := line_unique (hvalue name content hleft) (hother name content' hright) hinner
          exact ⟨congrArg some hline.1,hline.2⟩
    intro later hmem
    rcases List.mem_cons.mp hmem with rfl | hlater
    · exact hboth.1
    · exact hrest hboth.2 later hlater

end Reading

end Vinput.LabelledFields

/-!
# The pool of HTTP connections

A request takes an idle connection of its identity out of the pool, or makes
one, and gives it back unless the transfer failed. A connection is set up once,
when it is made, so the identity has to fix everything the set up depends on.
-/

namespace Vinput.ConnectionPool

open InterleavedRuns LabelledFields

/-- A text of an address. -/
abbrev Text := List Char

section Urls

/-- The parts of a URL. -/
structure UrlComponents where
  scheme : Text := []
  host : Text := []
  port : Text := []
  path : Text := []
  query : Text := []
deriving DecidableEq, Repr

/-- The text before and after the first place where a mark stands. -/
def splitOnce (mark : Text) : Text → Option (Text×Text)
  | [] => if mark=[] then some ([],[]) else none
  | c::rest =>
    if mark.isPrefixOf (c::rest) then some ([],(c::rest).drop mark.length)
    else (splitOnce mark rest).map fun parts => (c::parts.1,parts.2)

/-- The text before and after its first character of a set. -/
def breakAt (stops text : Text) : Text×Text :=
  (text.takeWhile fun c => decide (c∉stops),text.dropWhile fun c => decide (c∉stops))

/-- A decimal digit. -/
def isAsciiDigit (c : Char) : Bool := decide ('0' ≤ c ∧ c ≤ '9')

/-- A character of an address in brackets. -/
def isIpv6Char (c : Char) : Bool :=
  isAsciiDigit c || decide ('a' ≤ c ∧ c ≤ 'f') || decide ('A' ≤ c ∧ c ≤ 'F') || decide (c= ':')

/-- The scheme, whether an authority is announced, and what is left. -/
def parseScheme (url : Text) : Option (Text×Bool×Text) :=
  match splitOnce "://".toList url with
  | some (scheme,rest) =>
    if scheme≠[] ∧ scheme.all (fun c => decide ('a' ≤ c ∧ c ≤ 'z'))=true then
      some (scheme,true,rest)
    else none
  | none => if "//".toList.isPrefixOf url then some ([],true,url.drop 2) else some ([],false,url)

/-- The host and what is left. -/
def parseHost (rest : Text) : Option (Text×Text) :=
  match rest with
  | '[' :: inner =>
    match splitOnce [']'] inner with
    | none => none
    | some (host,behind) =>
      if host≠[] ∧ host.all isIpv6Char=true ∧
          behind.head?.all (fun c => decide (c∈":/?#".toList))=true then
        some (host,behind)
      else none
  | rest => some (breakAt ":/?#".toList rest)

/-- The port and what is left. -/
def parsePort : Text → Text×Text
  | ':' :: rest => breakAt "/?#".toList rest
  | rest => ([],rest)

/-- The path and the query. -/
def parsePath (rest : Text) : Text×Text :=
  let parts := match rest with
    | [] => ([],[])
    | c::_ => if c≠ '?' ∧ c≠ '#' then breakAt "?#".toList rest else ([],rest)
  match parts.2 with
  | '?' :: _ => (parts.1,(breakAt "#".toList parts.2).1)
  | _ => (parts.1,[])

/-- Whether a text that may be a bare host and port is read as one. -/
def hasAuthority (announced : Bool) (url : Text) : Bool :=
  announced || (match url.head? with
    | some c => decide (c∉"/?#".toList)
    | none => false)

/-- What follows the host. -/
def parseBehindHost (url scheme : Text) (announced : Bool) (host behind : Text) : UrlComponents :=
  let (port,left) := parsePort behind
  -- without an authority mark the whole text has to be a host and a port
  if announced=false ∧ left≠[] then ⟨scheme,[],[],(parsePath url).1,(parsePath url).2⟩
  else ⟨scheme,host,port,(parsePath left).1,(parsePath left).2⟩

/-- The parts of an address behind its scheme. -/
def parseBehindScheme (url : Text) : Text×Bool×Text → Option UrlComponents
  | (scheme,announced,rest) =>
    if hasAuthority announced url=true then
      -- user information and backslashes are not supported
      if (breakAt "/?#".toList rest).1.any (fun c => decide (c= '@' ∨ c= '\\'))=true then none
      else (parseHost rest).map fun parts => parseBehindHost url scheme announced parts.1 parts.2
    else some ⟨scheme,[],[],(parsePath rest).1,(parsePath rest).2⟩

/-- The parts of a URL, if it is one the HTTP library takes. -/
def parseUrl (url : Text) : Option UrlComponents := (parseScheme url).bind (parseBehindScheme url)

end Urls

section Requests

/-- A C string. -/
def CString : Type := {text : Text // '\x00'∉text}

/-- The environment of the process. -/
def Environment : Type := Text → Option CString

/-- The value of a variable. -/
def getenv (env : Environment) (name : String) : Option Text :=
  (env name.toList).map Subtype.val

/-- A header of a request. -/
structure HttpHeader where
  name : Text
  value : Text
deriving DecidableEq, Repr

/-- What the pool reads of a request. -/
structure HttpRequest where
  url : Text
  headers : List HttpHeader := []
  /-- Nothing: the environment decides; empty: no proxy; else this proxy. -/
  proxy : Option CString := none

/-- Equality up to the case of ASCII letters. -/
def equalsIgnoreCase (left right : Text) : Bool :=
  decide (left.map Char.toLower=right.map Char.toLower)

/-- The authorisation of a request. -/
def extractAuthorization (headers : List HttpHeader) : Text :=
  match headers.find? fun h => equalsIgnoreCase h.name "authorization".toList with
  | some h => h.value
  | none => []

/-- The variables that name a proxy. -/
def kVariables : List Text :=
  ["http_proxy", "HTTP_PROXY", "https_proxy", "HTTPS_PROXY", "all_proxy", "ALL_PROXY", "no_proxy",
    "NO_PROXY"].map String.toList

/-- The proxy policy of the environment as one text. -/
def buildProxyPolicySignature (env : Environment) : Text :=
  record '=' '\x00' kVariables fun name => (env name).map Subtype.val

/-- What connections can be shared by. -/
structure ConnectionIdentity where
  origin : Text
  credential : Text
  proxyPolicy : Text
deriving DecidableEq, Repr

/-- Scheme, host and port as the HTTP library takes them. -/
def originOf (uc : UrlComponents) : Text :=
  let host := if ':'∈uc.host ∧ uc.host.head?≠some '[' then '[' :: (uc.host++[']']) else uc.host
  uc.scheme++("://".toList++(host++(if uc.port=[] then [] else ':' :: uc.port)))

/-- The proxy policy of a request. -/
def proxyPolicyOf (env : Environment) (proxy : Option CString) : Text :=
  match proxy with
  | some proxy => "custom=".toList++proxy.val
  | none => buildProxyPolicySignature env

/-- The identity of a request. -/
def identityOf (env : Environment) (request : HttpRequest) (uc : UrlComponents) :
    ConnectionIdentity :=
  ⟨originOf uc,extractAuthorization request.headers,proxyPolicyOf env request.proxy⟩

/-- How a connection reaches its host. -/
structure ProxySettings where
  /-- Host and port of the proxy. -/
  proxy : Option (Text×ℤ) := none
  /-- Hosts that are reached without it. -/
  noProxy : List Text := []
deriving DecidableEq, Repr

/-- The number at the start of a text. -/
def atoi (text : Text) : ℤ :=
  let digits := text.dropWhile VersionConstraint.isSpace
  match digits with
  | '-' :: digits => -(VersionConstraint.numberValue (digits.takeWhile Char.isDigit) : ℤ)
  | '+' :: digits => VersionConstraint.numberValue (digits.takeWhile Char.isDigit)
  | digits => VersionConstraint.numberValue (digits.takeWhile Char.isDigit)

/-- The host and port of a proxy. -/
def applyProxy (words : Text) : Option (Text×ℤ) :=
  let url := if "http://".toList.isPrefixOf words || "https://".toList.isPrefixOf words then words
    else "http://".toList++words
  (parseUrl url).map fun uc => (uc.host,
    if uc.port≠[] then atoi uc.port else if uc.scheme="https".toList then 443 else 80)

/-- A proxy setting that is not empty. -/
def applyProxyIfSet (words : Option Text) : Option (Text×ℤ) :=
  match words with
  | some words => if words=[] then none else applyProxy words
  | none => none

/-- The proxy of the environment for a scheme. -/
def ambientProxy (env : Environment) (scheme : Text) : Option Text :=
  let own := if scheme="https".toList then getenv env "https_proxy" <|> getenv env "HTTPS_PROXY"
    else getenv env "http_proxy" <|> getenv env "HTTP_PROXY"
  own <|> (getenv env "all_proxy" <|> getenv env "ALL_PROXY")

/-- Hosts that need no proxy. -/
def noProxyPatterns (env : Environment) : List Text :=
  match getenv env "no_proxy" <|> getenv env "NO_PROXY" with
  | some words => ((words.splitOn ',').map VersionConstraint.trim).filter fun item => !item.isEmpty
  | none => []

/-- What the set up of a new connection does. -/
def configure (env : Environment) (request : HttpRequest) (uc : UrlComponents) : ProxySettings :=
  match request.proxy with
  | some proxy => ⟨applyProxyIfSet (some proxy.val),[]⟩
  | none => ⟨applyProxyIfSet (ambientProxy env uc.scheme),noProxyPatterns env⟩

end Requests

section Execution

/-- A request that reached the HTTP library, as it stood. -/
structure Served where
  env : Environment
  request : HttpRequest
  uc : UrlComponents

/-- A connection. -/
structure Client where
  serial : ℕ
  /-- The host it was made for. -/
  origin : Text
  settings : ProxySettings
  /-- The requests that have used it, the last one first. -/
  served : List Served

/-- The pool behind its mutex, with a counter of the connections made. -/
structure Shared where
  pool : ConnectionIdentity → List Client := fun _ => []
  made : ℕ := 0

/-- The most connections that are kept for a host. -/
def kMaxPoolPerHost : ℕ := 4

/-- The last idle connection of an identity is taken out. -/
def acquire (shared : Shared) (id : ConnectionIdentity) : Shared×Option Client :=
  match (shared.pool id).getLast? with
  | some cli => ({shared with pool := Function.update shared.pool id (shared.pool id).dropLast},
      some cli)
  | none => (shared,none)

/-- A connection is kept while the identity has room. -/
def release (shared : Shared) (id : ConnectionIdentity) (cli : Client) : Shared :=
  if (shared.pool id).length<kMaxPoolPerHost then
    {shared with pool := Function.update shared.pool id (shared.pool id++[cli])}
  else shared

/-- How a request ends. -/
inductive Ending where
  /-- Cancelled before anything was sent. -/
  | cancelledBefore
  /-- The file to download to cannot be opened. -/
  | openFailed
  /-- Cancelled by the time the transfer is over. -/
  | cancelledAfter
  /-- The library returned a response. -/
  | answered
  /-- The library returned an error. -/
  | failed
deriving DecidableEq, Repr

/-- A connection is given up only after an error of the library. -/
def Ending.releases : Ending → Bool
  | .failed => false
  | _ => true

/-- A thread between requests, or with a connection of its own. -/
inductive Pc where
  | idle
  | sending (current : Served) (cli : Client)

/-- The connection in use. -/
def Pc.client : Pc → Option Client
  | .idle => none
  | .sending _ cli => some cli

/-- What the environment decides: the next request, and how one ends. -/
inductive Oracle where
  | begin (env : Environment) (request : HttpRequest)
  | finish (ending : Ending)

/-- A request with a good URL of another scheme than file gets a connection. -/
def begin (env : Environment) (request : HttpRequest) (shared : Shared) : Shared×Pc :=
  match parseUrl request.url with
  | none => (shared,.idle)
  | some uc =>
    if uc.scheme="file".toList then (shared,.idle)
    else
      let current : Served := ⟨env,request,uc⟩
      match acquire shared (identityOf env request uc) with
      | (taken,some cli) => (taken,.sending current {cli with served := current::cli.served})
      | (taken,none) => ({taken with made := taken.made+1},
          .sending current ⟨taken.made,originOf uc,configure env request uc,[current]⟩)

/-- One step of Execute on one thread. -/
def execute : Oracle → Shared → Pc → Shared×Pc
  | .begin env request,shared,.idle => begin env request shared
  | .finish ending,shared,.sending current cli =>
    (if ending.releases then release shared (identityOf current.env current.request current.uc) cli
      else shared,.idle)
  | _,shared,pc => (shared,pc)

/-- No request yet. -/
def start : InterleavedRuns.Pool Shared Pc := ⟨{},fun _ => .idle⟩

end Execution

end Vinput.ConnectionPool
