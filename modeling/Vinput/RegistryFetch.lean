import Vinput.FileDownload
import Vinput.JsonTree
import Vinput.LineDraining

/-!
# Registry texts and their cache

A registry text is downloaded from the first address that has it and kept in a
file. When no address has it, the file answers in its place, with a warning.
The texts for the locales are kept in the same way; titles are looked up in
those of the preferred locale, then in the English ones, and a file of the
user's overrides both. The addresses, the locales and what the network and the
disk answer are given.
-/

namespace Vinput.RegistryFetch

open JsonTree (Json)
open ProcessLines (Bytes)

section Downloads

/-- What asking one address answers, and whether the download is cancelled
before and after it. -/
structure Answer where
  cancelledBefore : Bool := false
  statusCode : ℕ := 0
  body : Bytes := []
  effectiveUrl : String := ""
  errorMessage : String := ""
  cancelled : Bool := false
  cancelledAfter : Bool := false

/-- What came of a request. -/
structure Result where
  ok : Bool := false
  resolvedUrl : String := ""
  httpCode : ℕ := 0
  bytesReceived : ℕ := 0
  error : String := ""

/-- The address is one of a web server. -/
def requiresHttpStatusCheck (url : String) : Bool := FileDownload.requiresHttpStatusCheck url.toList

/-- The answer is a success. -/
def Answer.ok (answer : Answer) : Bool :=
  decide (200 ≤ answer.statusCode) && decide (answer.statusCode<300) &&
    decide (answer.errorMessage="") && !answer.cancelled

/-- The answer is taken for the text. -/
def accepted (url : String) (answer : Answer) : Bool :=
  answer.ok && (!requiresHttpStatusCheck url || decide (answer.statusCode=200))

/-- Why an answer is none. -/
def failure (url : String) (answer : Answer) : String :=
  if answer.cancelled then "download cancelled"
  else if answer.errorMessage≠"" then "download failed: "++answer.errorMessage
  else if requiresHttpStatusCheck url && decide (answer.statusCode≠200) &&
      decide (answer.statusCode≠0) then
    "download failed with HTTP "++toString answer.statusCode
  else "download failed"

/-- The result of an answer. -/
def populateResult (url : String) (answer : Answer) : Result where
  ok := accepted url answer
  resolvedUrl := if answer.effectiveUrl="" then url else answer.effectiveUrl
  httpCode := answer.statusCode
  bytesReceived := answer.body.length
  error := if accepted url answer then "" else failure url answer

/-- Ask the addresses until one of them has the text or the download is cancelled. -/
def downloadText : Result → List String → (ℕ → Answer) → Option Bytes×Result
  | last,[],_ => (none,last)
  | last,url::rest,answers =>
    let answer := answers 0
    let later := fun index => answers (index+1)
    if answer.cancelledBefore then
      (none,{last with
        ok := false
        resolvedUrl := url
        error := "download cancelled"})
    else if url="" then downloadText last rest later
    else if accepted url answer then (some answer.body,populateResult url answer)
    else if answer.cancelled || answer.cancelledAfter then (none,populateResult url answer)
    else downloadText (populateResult url answer) rest later

end Downloads

section Caches

/-- Files of the cache by their names below its directory. The names of locales
have no slashes. -/
abbrev Files := String → Option Bytes

variable (cacheDir : String)

/-- The path of a file in the cache. -/
def cachePath (name : String) : String := cacheDir++"/"++name

/-- What the network and the disk answer while one text is fetched. -/
structure Exchange where
  answers : ℕ → Answer
  writeError : Option String := none
  readError : Option String := none

/-- What fetching a text gives. -/
structure Fetched where
  ok : Bool
  content : Bytes := []
  result : Result := {}
  error : String := ""
  usedCache : Bool := false
  fallbackError : String := ""

/-- Replace a file as a whole. -/
def saveCachedText (files : Files) (name : String) (content : Bytes) : Option String → Files×String
  | some error => (files,error)
  | none => (Function.update files name (some content),"")

/-- A file of the cache that is there and can be read. -/
def loadCachedText (files : Files) (name : String) (readError : Option String) :
    Except String Bytes :=
  match files name,readError with
  | none,_ => .error ("Failed to open file "++cachePath cacheDir name)
  | some _,some error => .error error
  | some content,none => .ok content

/-- A text of the network, which is saved, or else of the cache. -/
def fetchText (urls : List String) (name : String) (exchange : Exchange) (files : Files) :
    Files×Fetched :=
  match downloadText {} urls exchange.answers with
  | (some content,result) =>
    let (saved,writeError) := saveCachedText files name content exchange.writeError
    match exchange.writeError with
    | some _ => (saved,{ok := false, content, result, error := writeError})
    | none => (saved,{ok := true, content, result})
  | (none,result) =>
    match loadCachedText cacheDir files name exchange.readError with
    | .ok content =>
      (files,
        {ok := true
         content
         result :=
          {ok := true
           resolvedUrl := cachePath cacheDir name
           bytesReceived := content.length}
         usedCache := true
         fallbackError := result.error})
    | .error cacheError =>
      (files,
        {ok := false
         result
         error := if result.error≠"" then result.error++"; cache unavailable: "++cacheError
           else cacheError})

/-- The file of a locale. -/
def i18nName (locale : String) : String := "i18n/"++locale++".json"

/-- The file of the models. -/
def modelRegistryName : String := "models.json"

/-- The file of the speech recognition providers. -/
def asrProviderRegistryName : String := "providers.json"

/-- The file of the adapters. -/
def llmAdapterRegistryName : String := "adapters.json"

/-- The registries that are fetched. -/
inductive Registry where
  | models
  | asrProviders
  | llmAdapters

/-- The file of a registry. -/
def Registry.name : Registry → String
  | .models => modelRegistryName
  | .asrProviders => asrProviderRegistryName
  | .llmAdapters => llmAdapterRegistryName

end Caches

section Registries

variable (cacheDir : String)

/-- An address without slashes at its end. -/
def withoutSlashes (url : List Char) : List Char := (url.reverse.dropWhile (· = '/')).reverse

/-- Addresses of a file of the registry, each once. -/
def resolveRegistryUrlsForPath (suffix : String) (seen : List String) : List String → List String
  | [] => []
  | base::rest =>
    if base="" then resolveRegistryUrlsForPath suffix seen rest
    else
      let url := String.ofList (withoutSlashes base.toList)++"/"++suffix
      if url∈seen then resolveRegistryUrlsForPath suffix seen rest
      else url::resolveRegistryUrlsForPath suffix (url::seen) rest

/-- The addresses of the titles of a locale. -/
def registryI18nUrls (baseUrls : List String) (locale : String) : List String :=
  resolveRegistryUrlsForPath ("i18n/"++locale++".json") [] baseUrls

/-- What is said when the cache has to do. -/
def cacheFallbackWarning (name : String) (fetched : Fetched) : String :=
  "using cached "++name++" because download failed"++
    if fetched.fallbackError="" then "" else ": "++fetched.fallbackError

/-- What the surroundings answer while a registry text and the texts of its
locales are fetched. -/
structure Exchanges where
  text : Exchange
  preferred : Exchange
  english : Exchange

/-- The titles of one locale are fetched and saved. -/
def refreshLocaleCache (baseUrls : List String) (locale : String) (exchange : Exchange)
    (files : Files) : Files×List String :=
  let urls := registryI18nUrls baseUrls locale
  if urls=[] then (files,[])
  else
    let (files,fetched) := fetchText cacheDir urls (i18nName locale) exchange files
    (files,if fetched.ok && fetched.usedCache then
        [cacheFallbackWarning ("i18n "++locale) fetched]
      else [])

/-- Without a configuration nothing is refreshed. -/
def refreshI18nAfterOnlineFetch (baseUrls : Option (List String)) (preferredLocale : String)
    (exchanges : Exchanges) (files : Files) : Files×List String :=
  match baseUrls with
  | none => (files,[])
  | some baseUrls =>
    let (files,warnings) :=
      refreshLocaleCache cacheDir baseUrls preferredLocale exchanges.preferred files
    if preferredLocale="en_US" then (files,warnings)
    else
      let (files,more) := refreshLocaleCache cacheDir baseUrls "en_US" exchanges.english files
      (files,warnings++more)

/-- The files, what fetching the text gave, and the warnings. The file stands in no further
directory. -/
def fetchRegistryText (baseUrls : Option (List String)) (preferredLocale : String)
    (urls : List String) (name : String) (exchanges : Exchanges) (files : Files) :
    Files×Fetched×List String :=
  let (files,fetched) := fetchText cacheDir urls name exchanges.text files
  if fetched.ok=false then (files,fetched,[])
  else if fetched.usedCache then (files,fetched,[cacheFallbackWarning name fetched])
  else
    let (files,warnings) :=
      refreshI18nAfterOnlineFetch cacheDir baseUrls preferredLocale exchanges files
    (files,fetched,warnings)

end Registries

section I18n

/-- Texts by their keys; the first entry of a key counts. -/
abbrev I18nMap := List (String×String)

/-- Set a text. -/
def assign (map : I18nMap) (entry : String×String) : I18nMap := entry::map

/-- Set a text that is not there yet. -/
def emplace (map : I18nMap) (entry : String×String) : I18nMap :=
  if (map.lookup entry.1).isSome=true then map else entry::map

variable (cacheDir : String) (readJson : Bytes → Except String Json)

/-- The map, and an error text. -/
def parseI18nJson (content : Bytes) : I18nMap×String :=
  match readJson content with
  | .error error => ([],"failed to parse i18n JSON: "++error)
  | .ok (.object members) =>
    ((members.filterMap fun member =>
      (JsonTree.readText member.2).map fun text => (member.1,text)).foldl assign [],"")
  | .ok _ => ([],"i18n JSON is not an object")

/-- Load a file, if there is one. -/
def loadI18nFile (path : String) : Option Bytes → I18nMap×String
  | none => ([],"cached i18n unavailable: "++path)
  | some content => parseI18nJson readJson content

/-- The texts of the user's file, if there is one, come first. -/
def applyLocalI18nOverrides (overrides : Option Bytes) (map : I18nMap) : I18nMap :=
  (loadI18nFile readJson "i18n.local.json" overrides).1.reverse.foldl assign map

/-- The titles of the cache, local ones first. -/
def loadMergedCachedI18nMap (overrides : Option Bytes) (preferredLocale : String) (files : Files) :
    I18nMap×String :=
  let (primary,primaryError) :=
    loadI18nFile readJson (cachePath cacheDir (i18nName preferredLocale))
      (files (i18nName preferredLocale))
  let (merged,fallbackError) :=
    if preferredLocale="en_US" then (primary,"")
    else
      let (fallback,fallbackError) :=
        loadI18nFile readJson (cachePath cacheDir (i18nName "en_US")) (files (i18nName "en_US"))
      (if primary=[] then fallback else fallback.foldl emplace primary,fallbackError)
  let merged := applyLocalI18nOverrides readJson overrides merged
  (merged,
    if merged≠[] then ""
    else if primaryError≠"" then
      if fallbackError≠"" then primaryError++"; "++fallbackError else primaryError
    else fallbackError)

/-- The files, the map and an error text. -/
def fetchI18nMap (locale : String) (urls : List String) (exchange : Exchange) (files : Files) :
    Files×I18nMap×String :=
  if urls=[] then (files,[],"no i18n URLs configured")
  else
    let (files,fetched) := fetchText cacheDir urls (i18nName locale) exchange files
    if fetched.ok=false then (files,[],fetched.error)
    else (files,parseI18nJson readJson fetched.content)

/-- The titles of the network or the cache, local ones first. -/
def fetchMergedI18nMap (overrides : Option Bytes) (baseUrls : List String)
    (preferredLocale : String) (exchanges : Exchanges) (files : Files) : Files×I18nMap×String :=
  let primaryUrls := registryI18nUrls baseUrls preferredLocale
  let (files,merged,fetchError) :=
    if primaryUrls=[] then (files,[],"")
    else fetchI18nMap cacheDir readJson preferredLocale primaryUrls exchanges.preferred files
  if preferredLocale="en_US" then
    (files,applyLocalI18nOverrides readJson overrides merged,fetchError)
  else
    let (files,fallback,fallbackError) :=
      fetchI18nMap cacheDir readJson "en_US" (registryI18nUrls baseUrls "en_US")
        exchanges.english files
    (files,applyLocalI18nOverrides readJson overrides (fallback.foldl emplace merged),
      if merged=[] then fallbackError else fetchError)

/-- The title of a key, or what is used without one. -/
def lookupI18n (map : I18nMap) (key fallback : String) : String :=
  match map.lookup key with
  | none => fallback
  | some text => if text="" then fallback else text

end I18n

end Vinput.RegistryFetch
