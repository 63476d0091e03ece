import Vinput.JsonPattern
import Vinput.VersionConstraint

/-!
# Migration of the configuration files

A table of rules rewrites older files. Rules for `config.json` walk its tree
along a path in which a star stands for every child; they are skipped when
the file is written for their version or a later one. Rules for
`vinput.conf` look for keys anywhere. A file that is up to date is left
alone on a fast path.
-/

namespace Vinput.ConfigMigration

open JsonTree JsonLocation JsonPattern VersionConstraint

section Rules

/-- What a rule does. -/
inductive ActionType where
  | rename
  | remove
  | ensure
  | replaceIfDefault
  | iniReplaceKey
  | iniRemoveKey
deriving DecidableEq

/-- The file a rule is for. -/
inductive TargetFile where
  | configJson
  | vinputConf
deriving DecidableEq

/-- A rule of the table. -/
structure MigrationRule where
  /-- Files written for an earlier version are migrated. -/
  version : String
  targetFile : TargetFile
  action : ActionType
  /-- Segments separated by dots. -/
  path : String
  newKey : String := ""
  /-- Value of a member that is added. -/
  defaultValue : Json := .null
  /-- Value of a member that is replaced. -/
  expectedValue : Json := .null
  /-- Value it is replaced by. -/
  toValue : Json := .null

/-- All rules in order. -/
def getRules : List MigrationRule :=
  [{version := "2.3.15",targetFile := .configJson,action := .rename,
    path := "scenes.*.*.candidate_count",newKey := "count"},
   {version := "2.3.15",targetFile := .configJson,action := .rename,path := "llm.adaptors",
    newKey := "adapters"},
   {version := "2.3.15",targetFile := .vinputConf,action := .iniReplaceKey,
    path := "SceneMenuKey",newKey := "MenuKey"},
   {version := "2.3.15",targetFile := .vinputConf,action := .iniRemoveKey,path := "AsrMenuKey"},
   {version := "2.3.25",targetFile := .configJson,action := .rename,
    path := "scenes.*.*.show_raw",newKey := "raw_cand"},
   {version := "2.3.25",targetFile := .configJson,action := .ensure,
    path := "scenes.*.*.raw_prev",defaultValue := .bool true},
   {version := "2.3.27",targetFile := .configJson,action := .remove,
    path := "global.default_language"},
   {version := "2.4.0",targetFile := .vinputConf,action := .iniRemoveKey,
    path := "HoldActivationDelay"},
   {version := "2.4.0",targetFile := .configJson,action := .replaceIfDefault,
    path := "asr.vad.threshold",expectedValue := .number 0.45,toValue := .number 0.35},
   {version := "2.4.0",targetFile := .configJson,action := .replaceIfDefault,
    path := "asr.vad.min_speech_duration",expectedValue := .number 0.15,toValue := .number 0.10},
   {version := "2.4.0",targetFile := .configJson,action := .replaceIfDefault,
    path := "asr.vad.min_silence_duration",expectedValue := .number 0.5,toValue := .number 1.2},
   {version := "2.4.0",targetFile := .configJson,action := .replaceIfDefault,
    path := "asr.vad.speech_pad_ms",expectedValue := .number 30,toValue := .number 500},
   {version := "2.4.0",targetFile := .configJson,action := .replaceIfDefault,
    path := "asr.vad.speech_pad_ms",expectedValue := .number 300,toValue := .number 500}]

/-- The greatest version of a rule. -/
def getMaxRuleVersion : SemanticVersion :=
  getRules.foldl (fun greatest rule =>
    match parse rule.version.toList with
    | some version => if greatest<version then version else greatest
    | none => greatest) {}

/-- The constraint that migrated files carry. -/
def getTargetVersionConstraint : String :=
  ">="++toString getMaxRuleVersion.major++"."++toString getMaxRuleVersion.minor++"."++
    toString getMaxRuleVersion.patch

/-- The version a constraint starts at. -/
def parseConfigLowerBoundVersion (text : String) : Option SemanticVersion :=
  let text := trim text.toList
  if text=[] then none
  else
    parse ((text.takeWhile fun c => decide (c ≠ ',')).dropWhile fun c =>
      decide (c∈['>', '=', ' ']))

end Rules

section Trees

/-- A change that is reported. -/
structure MigrationChange where
  file : String
  description : String

/-- A value is the one a rule expects. Numbers are doubles that are close enough. -/
def jsonEquals : Json → Json → Bool
  | .number actual,.number expected =>
    decide (|toDouble (toDouble actual-toDouble expected)|<toDouble (1/10000))
  | .bool actual,.bool expected => decide (actual=expected)
  | .text actual,.text expected => decide (actual=expected)
  | .null,.null => true
  | _,_ => false

/-- An object without a member. -/
def eraseMember (key : String) (members : List (String×Json)) : List (String×Json) :=
  members.filter fun entry => decide (entry.1≠key)

/-- An object with a member set. -/
def setMember (key : String) (value : Json) (members : List (String×Json)) : List (String×Json) :=
  if (members.lookup key).isSome then modifyMember key (fun _ => value) members
  else members++[(key,value)]

/-- A node after a walk, whether it was changed and what is reported. -/
structure Walked (α : Type) where
  changed : Bool
  node : α
  changes : List MigrationChange

/-- A description below another. -/
def descend (desc key : String) : String := if desc="" then key else desc++"."++key

variable (formatJson : Json → String)

/-- Apply a rule to an object. -/
def applyActionToTarget (rule : MigrationRule) (desc key : String)
    (members : List (String×Json)) : Walked (List (String×Json)) :=
  let place := if desc="" then key else desc
  match rule.action with
  | .rename =>
    match members.lookup key with
    | some value =>
      if (members.lookup rule.newKey).isSome=false then
        ⟨true,eraseMember key (members++[(rule.newKey,value)]),[⟨"config.json",
          descend desc key++": renamed '"++key++"' to '"++rule.newKey++"'"⟩]⟩
      else
        ⟨true,eraseMember key members,[⟨"config.json",
          descend desc key++": removed obsolete duplicate key '"++key++"'"⟩]⟩
    | none => ⟨false,members,[]⟩
  | .remove =>
    if (members.lookup key).isSome then
      ⟨true,eraseMember key members,[⟨"config.json",
        place++": removed obsolete field '"++key++"'"⟩]⟩
    else ⟨false,members,[]⟩
  | .ensure =>
    if (members.lookup key).isSome=false then
      ⟨true,setMember key rule.defaultValue members,[⟨"config.json",
        place++": added '"++key++"'"⟩]⟩
    else ⟨false,members,[]⟩
  | .replaceIfDefault =>
    match members.lookup key with
    | some value =>
      if jsonEquals value rule.expectedValue then
        ⟨true,setMember key rule.toValue members,[⟨"config.json",
          descend desc key++": upgraded legacy default "++formatJson rule.expectedValue++" to "++
            formatJson rule.toValue⟩]⟩
      else ⟨false,members,[]⟩
    | none => ⟨false,members,[]⟩
  | _ => ⟨false,members,[]⟩

/-- How an element of an array is described. -/
def elementDesc (desc : String) (position : ℕ) (element : Json) : String :=
  let id := match element.find "id" with
    | some (.text id) => id
    | _ => toString position
  desc++"["++id++"]"

/-- Walk along the segments of a path and apply a rule at its end. -/
def walkAndApply (rule : MigrationRule) : List String → String → Json → Walked Json
  | [],_,node => ⟨false,node,[]⟩
  | [segment],desc,node =>
    match node with
    | .object members =>
      let applied := applyActionToTarget formatJson rule desc segment members
      ⟨applied.changed,.object applied.node,applied.changes⟩
    | _ => ⟨false,node,[]⟩
  | segment::next::rest,desc,node =>
    if segment="*" then
      match node with
      | .object members =>
        let walked := members.map fun entry =>
          (entry.1,walkAndApply rule (next::rest) (descend desc entry.1) entry.2)
        ⟨walked.any fun entry => entry.2.changed,
          .object (walked.map fun entry => (entry.1,entry.2.node)),
          walked.flatMap fun entry => entry.2.changes⟩
      | .array elements =>
        let walked := elements.mapIdx fun position element =>
          walkAndApply rule (next::rest) (elementDesc desc position element) element
        ⟨walked.any Walked.changed,.array (walked.map Walked.node),
          walked.flatMap Walked.changes⟩
      | _ => ⟨false,node,[]⟩
    else
      match node with
      | .object members =>
        match members.lookup segment with
        | some value =>
          let walked := walkAndApply rule (next::rest) (descend desc segment) value
          ⟨walked.changed,.object (modifyMember segment (fun _ => walked.node) members),
            walked.changes⟩
        | none => ⟨false,node,[]⟩
      | _ => ⟨false,node,[]⟩

/-- The segments of a rule's path. -/
def MigrationRule.segments (rule : MigrationRule) : List String :=
  (rule.path.toList.splitOn '.').map String.ofList

/-- The version a tree is written for; older trees have none. -/
def configVersion (root : Json) : Option SemanticVersion :=
  match root.find "version" with
  | some (.text version) => parseConfigLowerBoundVersion version
  | _ => none

/-- A rule for the tree whose version the tree has not reached. -/
def ruleApplies (version : Option SemanticVersion) (rule : MigrationRule) : Bool :=
  match rule.targetFile,parse rule.version.toList with
  | .configJson,some ruleVersion =>
    match version with
    | none => true
    | some version => decide (version<ruleVersion)
  | _,_ => false

/-- Apply rules one after another. -/
def applyRules : List MigrationRule → Json → Walked Json
  | [],root => ⟨false,root,[]⟩
  | rule::rest,root =>
    let first := walkAndApply formatJson rule rule.segments "" root
    let later := applyRules rest first.node
    ⟨first.changed || later.changed,later.node,first.changes++later.changes⟩

/-- Remove the version of old files. -/
def dropLegacyVersion : Json → Walked Json
  | .object members =>
    if (members.lookup "vinput_version").isSome then
      ⟨true,.object (eraseMember "vinput_version" members),
        [⟨"config.json","removed legacy 'vinput_version' field"⟩]⟩
    else ⟨false,.object members,[]⟩
  | root => ⟨false,root,[]⟩

/-- Write the version the rules lead to. -/
def stampVersion : Json → Walked Json
  | .object members =>
    match members.lookup "version" with
    | some (.text version) =>
      if version=getTargetVersionConstraint then ⟨false,.object members,[]⟩
      else stamped members
    | _ => stamped members
  | root => ⟨false,root,[]⟩
where
  stamped (members : List (String×Json)) : Walked Json :=
    ⟨true,.object (setMember "version" (.text getTargetVersionConstraint) members),
      [⟨"config.json","version: standardized constraint to '"++getTargetVersionConstraint++"'"⟩]⟩

/-- The slow path for the tree of `config.json`. -/
def migrateConfig (root : Json) : Walked Json :=
  if root.isObject then
    let ruled := applyRules formatJson (getRules.filter (ruleApplies (configVersion root))) root
    let dropped := dropLegacyVersion ruled.node
    let stamped := stampVersion dropped.node
    ⟨ruled.changed || dropped.changed || stamped.changed,stamped.node,
      ruled.changes++dropped.changes++stamped.changes⟩
  else ⟨false,root,[]⟩

end Trees

section Conf

/-- What fcitx does with a node of an ini file, which has a value and items below it.
An item is named by the way to it. -/
structure RawConfig (Node : Type) where
  /-- Ways to all items below a node, in the order they are visited. -/
  visitSubItems : Node → List (List String)
  /-- The item at a way. -/
  get : List String → Node → Option Node
  /-- A node with one more item at a way. -/
  add : List String → Node → Node → Node
  /-- A node without the item at a way. -/
  remove : List String → Node → Node

variable {Node : Type} (ini : RawConfig Node)

/-- Keys that no version uses any more. -/
def kOutdatedKeys : List String := ["SceneMenuKey","AsrMenuKey","HoldActivationDelay"]

/-- Some item has the name of such a key. -/
def hasOutdatedIniKeys (conf : Node) : Bool :=
  (ini.visitSubItems conf).any fun path => decide (path.getLastD ""∈kOutdatedKeys)

/-- Apply a rule at one item. -/
def applyIniRuleAt (rule : MigrationRule) (path : List String) (root : Node) : Walked Node :=
  match ini.get path root with
  | none => ⟨false,root,[]⟩
  | some old =>
    match rule.action with
    | .iniReplaceKey =>
      let newPath := path.dropLast++[rule.newKey]
      if (ini.get newPath root).isNone then
        ⟨true,ini.remove path (ini.add newPath old root),
          [⟨"vinput.conf","replaced key '"++rule.path++"' with '"++rule.newKey++"'"⟩]⟩
      else
        ⟨true,ini.remove path root,
          [⟨"vinput.conf","removed obsolete duplicate key '"++rule.path++"'"⟩]⟩
    | .iniRemoveKey =>
      ⟨true,ini.remove path root,
        [⟨"vinput.conf","removed obsolete key '"++rule.path++"'"⟩]⟩
    | _ => ⟨false,root,[]⟩

/-- Apply a rule at ways that were found before. -/
def applyIniRuleAll (rule : MigrationRule) : List (List String) → Node → Walked Node
  | [],root => ⟨false,root,[]⟩
  | path::rest,root =>
    let first := applyIniRuleAt ini rule path root
    let later := applyIniRuleAll rule rest first.node
    ⟨first.changed || later.changed,later.node,first.changes++later.changes⟩

/-- Apply a rule wherever its key stands. -/
def applyIniRule (rule : MigrationRule) (root : Node) : Walked Node :=
  let wanted := fun path : List String =>
    if '/'∈rule.path.toList then decide ("/".intercalate path=rule.path)
    else decide (path.getLastD ""=rule.path)
  applyIniRuleAll ini rule ((ini.visitSubItems root).filter wanted) root

/-- The slow path for `vinput.conf`. -/
def migrateConf : List MigrationRule → Node → Walked Node
  | [],root => ⟨false,root,[]⟩
  | rule::rest,root =>
    let first := if rule.targetFile=.vinputConf then applyIniRule ini rule root
      else ⟨false,root,[]⟩
    let later := migrateConf rest first.node
    ⟨first.changed || later.changed,later.node,first.changes++later.changes⟩

/-- A node as the values of its items, each at its way; its own value is at the
empty one. -/
def flatItems : RawConfig (List (List String×String)) where
  visitSubItems node := node.map Prod.fst
  get path node :=
    match (node.filter fun item => path.isPrefixOf item.1) with
    | [] => none
    | below => some (below.map fun item => (item.1.drop path.length,item.2))
  add path item node := node++item.map fun below => (path++below.1,below.2)
  remove path node := node.filter fun item => !path.isPrefixOf item.1

end Conf

section Files

/-- What both paths decide for the files that are there. -/
structure Plan (Node : Type) where
  needed : Bool := false
  changes : List MigrationChange := []
  configChanged : Bool := false
  config : Option Json := none
  confChanged : Bool := false
  conf : Option Node := none

/-- The fast path accepts `config.json`, or there is none. -/
def configSatisfies (host : String) : Option Json → Bool
  | none => true
  | some root =>
    match root.find "version",root.find "vinput_version" with
    | some (.text version),none =>
      match parseConfigLowerBoundVersion version with
      | some lower =>
        decide ¬lower<getMaxRuleVersion && satisfies host.toList version.toList
      | none => false
    | _,_ => false

variable {Node : Type} (ini : RawConfig Node) (formatJson : Json → String)

/-- The fast path, and the slow one when it does not apply. -/
def planMigration (host : String) (config : Option Json) (conf : Option Node) : Plan Node :=
  if configSatisfies host config && !conf.any (hasOutdatedIniKeys ini) then {}
  else
    let config := config.map (migrateConfig formatJson)
    let conf := conf.map (migrateConf ini getRules)
    let changes := (config.map Walked.changes).getD []++(conf.map Walked.changes).getD []
    let configChanged := config.any Walked.changed
    let confChanged := conf.any Walked.changed
    {needed := !changes.isEmpty || configChanged || confChanged
     changes := changes
     configChanged := configChanged
     config := config.map Walked.node
     confChanged := confChanged
     conf := conf.map Walked.node}

/-- A file as the migration finds it. -/
inductive Found where
  | missing
  /-- Its links cannot be followed. -/
  | unresolved (error : String)
  /-- It cannot be read. -/
  | unreadable (error : String)
  | text (raw : String)

/-- How writing ends, with the reason if it fails. -/
structure Writes where
  configBackup : Option String := none
  config : Option String := none
  confBackup : Option String := none
  conf : Bool := true

/-- What a migration reports. -/
structure MigrationReport where
  needed : Bool := false
  applied : Bool := false
  changes : List MigrationChange := []
  error : String := ""

/-- The report, and the files as they are written, if they are. -/
structure Outcome where
  report : MigrationReport
  config : Option String := none
  conf : Option String := none

variable (readJson : String → Option Json) (formatPrettyJson : Json → String)
  (readAsIni : String → Node) (saveAsIni : Node → String) (configPath confPath : String)

/-- Read both files. -/
def loadFiles (config conf : Found) :
    Except String (Option Json×Option Node) :=
  match config,conf with
  | .unresolved error,_ => .error error
  | _,.unresolved error => .error error
  | .unreadable error,_ => .error error
  | .text raw,conf =>
    match readJson raw,conf with
    | none,_ => .error ("Failed to parse "++configPath++": invalid JSON")
    | _,.unreadable error => .error error
    | some root,.text rawConf => .ok (some root,some (readAsIni rawConf))
    | some root,_ => .ok (some root,none)
  | .missing,.unreadable error => .error error
  | .missing,.text rawConf => .ok (none,some (readAsIni rawConf))
  | .missing,.missing => .ok (none,none)

/-- Write `vinput.conf` when the plan changes it, after its backup. -/
def writeConf (plan : Plan Node) (writes : Writes) (report : MigrationReport)
    (config : Option String) : Outcome :=
  match plan.confChanged,plan.conf with
  | true,some conf =>
    match writes.confBackup with
    | some error =>
      ⟨{report with error := "Failed to create backup for "++confPath++": "++error},config,none⟩
    | none =>
      if writes.conf then ⟨{report with applied := true},config,some (saveAsIni conf)⟩
      else ⟨{report with error := "Failed to write migrated "++confPath},config,none⟩
  | _,_ => ⟨{report with applied := true},config,none⟩

/-- Migrate both files. -/
def runConfigMigration (host : String) (dryRun : Bool) (config conf : Found) (writes : Writes) :
    Outcome :=
  match loadFiles readJson readAsIni configPath config conf with
  | .error error => ⟨{error := error},none,none⟩
  | .ok (none,none) => ⟨{},none,none⟩
  | .ok (root,items) =>
    let plan := planMigration ini formatJson host root items
    let report : MigrationReport := {needed := plan.needed,changes := plan.changes}
    if !plan.needed || dryRun then ⟨report,none,none⟩
    else
      match plan.configChanged,plan.config with
      | true,some migrated =>
        match writes.configBackup with
        | some error =>
          ⟨{report with error := "Failed to create backup for "++configPath++": "++error},
            none,none⟩
        | none =>
          match writes.config with
          | some error =>
            ⟨{report with error := "Failed to write migrated "++configPath++": "++error},
              none,none⟩
          | none =>
            writeConf saveAsIni confPath plan writes report
              (some (formatPrettyJson migrated++"\n"))
      | _,_ => writeConf saveAsIni confPath plan writes report none

end Files

end Vinput.ConfigMigration
