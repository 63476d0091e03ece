import Vinput.ConfigMigrationRuns
import Vinput.VersionBounds

/-!
# Versions of the configuration and the rules they cover

The version of a tree is a constraint. The migration reads the version it
starts at from the first token only, while a constraint may bound versions
from below in any of its tokens.
-/

namespace Vinput.ConfigMigrationBounds

open JsonTree JsonLocation JsonPattern VersionConstraint VersionBounds TrimmedText
open ConfigMigration ConfigMigrationRules ConfigMigrationRuns

section Bounds

/-- White space around a version does not count. -/
theorem parse_trim (text : List Char) : parse (trim text)=parse text := by
  unfold parse
  rw [trim_trim]

/-- Characters no version begins with. -/
def isOdd (c : Char) : Bool := decide (c∈['<', '>', '=', '*', ','])

/-- An odd letter starts no component. -/
theorem component_odd {c : Char} (h : isOdd c=true) (rest : List Char) :
    component (c::rest)=none := by
  have hdigit : c.isDigit=false := by
    have hall : ∀ other∈['<', '>', '=', '*', ','], other.isDigit=false := by
      simp [Char.isDigit]
    exact hall c (of_decide_eq_true h)
  have hsign : c≠ '-' := by
    rintro rfl
    cases h
  have hchars : fromChars (c::rest)=none := by
    unfold fromChars
    split
    · rename_i htext
      exact absurd (List.cons.inj htext).1 hsign
    · simp [isNumber,hdigit]
  rw [component,hchars]

theorem parse_odd {c : Char} (h : isOdd c=true) (text : List Char) : parse (c::text)=none := by
  have hall : ∀ other∈['<', '>', '=', '*', ','],
      other≠ 'v' ∧ other≠ 'V' ∧ other≠ '.' ∧ isSpace other=false := by
    simp [isSpace]
  obtain ⟨hsmall,hgreat,hdot,hspace⟩ := hall c (of_decide_eq_true h)
  have htrim : (trim (c::text)).head?=some c := by
    rw [head_trim_eq,List.dropWhile_cons_of_neg (by simp [hspace])]
    rfl
  obtain ⟨rest,htext⟩ := List.head?_eq_some_iff.mp htrim
  have hhead := head_splitOn '.' (c::rest)
  have hfirst : (c::rest).takeWhile (fun c => decide (c≠ '.'))=
      c::rest.takeWhile (fun c => decide (c≠ '.')) := by
    simp [hdot]
  rw [hfirst] at hhead
  have hplain : ∀ letter, letter≠c → ∀ more, c::rest=letter::more → False := by
    intro letter hletter more hsame
    exact hletter (List.cons.inj hsame).1.symm
  have hnosmall := hplain 'v' hsmall.symm
  have hnogreat := hplain 'V' hgreat.symm
  simp only [parse,htext]
  split
  · rename_i major minor hsplit
    rw [hsplit,List.head?_cons,Option.some.injEq] at hhead
    rw [hhead,component_odd h]
    rfl
  · rename_i major minor patch hsplit
    rw [hsplit,List.head?_cons,Option.some.injEq] at hhead
    rw [hhead,component_odd h]
    rfl
  · rfl

/-- Characters in front of a lower bound. -/
def isLead (c : Char) : Bool := decide (c∈['>', '=', ' '])

/-- What stands in front of a version does not change it. -/
theorem parse_dropLead {text : List Char} {version : SemanticVersion}
    (h : parse (trim text)=some version) : parse (text.dropWhile isLead)=some version := by
  have hhead : ∀ c∈(text.dropWhile isSpace).head?, isOdd c=false := by
    intro c hc
    by_contra hodd
    rw [← head_trim_eq] at hc
    obtain ⟨rest,hrest⟩ := List.head?_eq_some_iff.mp hc
    rw [hrest,parse_odd (Bool.eq_true_of_not_eq_false hodd)] at h
    cases h
  have hsame : ∀ part : List Char, (∀ c∈(part.dropWhile isSpace).head?, isOdd c=false) →
      (part.dropWhile isLead).dropWhile isSpace=part.dropWhile isSpace := by
    intro part hpart
    induction part with
    | nil => rfl
    | cons c rest ih =>
      by_cases hspace : isSpace c=true
      · by_cases hlead : isLead c=true
        · rw [List.dropWhile_cons_of_pos hspace] at hpart ⊢
          rw [List.dropWhile_cons_of_pos hlead]
          exact ih hpart
        · rw [List.dropWhile_cons_of_neg hlead]
      · have hlead : ¬isLead c=true := by
          intro hlead
          have hodd := hpart c (by rw [List.dropWhile_cons_of_neg hspace]; rfl)
          have hall : ∀ other∈['>', '=', ' '], isOdd other=true ∨ isSpace other=true := by
            simp [isOdd,isSpace]
          rcases hall c (of_decide_eq_true hlead) with hyes | hyes
          · rw [hyes] at hodd
            cases hodd
          · exact hspace hyes
        rw [List.dropWhile_cons_of_neg hlead]
  rw [← h,parse_trim,← parse_trim (text.dropWhile isLead),← parse_trim text]
  unfold trim
  rw [hsame text hhead]

/-- The version a comparison writes, unless it is a bound from above. -/
def opWritten (target : SemanticVersion) : Op → Option SemanticVersion
  | .less => none
  | .lessEqual => none
  | _ => some target

/-- The version that a token bounds from below or asks for, as it is written. -/
def writtenBound (token : List Char) : Option SemanticVersion :=
  (parse (trim (takeOp (trim token)).2)).bind fun target =>
    opWritten target (takeOp (trim token)).1

/-- The bound that a first token writes is what is left of it behind its
operator. -/
theorem parse_writtenBound {token : List Char} (hhead : ∀ c∈token.head?, isSpace c=false)
    {version : SemanticVersion} (h : checkSingleConstraint version token=true) :
    parse (token.dropWhile isLead)=writtenBound token := by
  obtain ⟨spaces,hspaces,htoken⟩ := split_trim hhead
  have hdropped : parse (token.dropWhile isLead)=parse ((trim token).dropWhile isLead) := by
    rw [← parse_trim,← parse_trim ((trim token).dropWhile isLead)]
    congr 1
    conv_lhs => rw [htoken,List.dropWhile_append]
    split
    · rename_i hempty
      rw [List.isEmpty_iff.mp hempty]
      exact trim_spaces fun c hc => hspaces c ((List.dropWhile_suffix _).subset hc)
    · exact trim_append_spaces hspaces
  rw [hdropped,writtenBound]
  by_cases hfree : trim token=[] ∨ trim token=['*']
  · rcases hfree with hfree | hfree
    · rw [hfree]
      decide
    · rw [hfree]
      decide
  · obtain ⟨target,hparsed,_⟩ := (checkSingleConstraint_eq hfree version).mp h
    have hlead := parse_dropLead hparsed
    rw [hparsed,Option.bind_some]
    generalize trim token=text at hlead ⊢
    have habove : ∀ rest, parse (('<' :: rest).dropWhile isLead)=none := by
      intro rest
      exact parse_odd (by decide) rest
    revert hlead
    unfold takeOp
    split
    · exact id
    · exact fun _ => habove _
    · exact id
    · exact fun _ => habove _
    · exact id
    · exact id

/-- The bound in the first token of a constraint. -/
def firstBound (constraint : List Char) : Option SemanticVersion :=
  (tokens constraint).head?.bind writtenBound

/-- The migration reads the bound in the first token. -/
theorem parseConfigLowerBoundVersion_eq {version : String}
    (h : ∃ current, Met version.toList current) :
    parseConfigLowerBoundVersion version=firstBound version.toList := by
  obtain ⟨current,hcurrent⟩ := h
  obtain ⟨_,hmet⟩ := met_iff.mp hcurrent
  have hfirst := head_splitOn ',' (trim version.toList)
  have hmem := hmet _ (List.mem_of_head? hfirst)
  rw [firstBound,tokens,hfirst,Option.bind_some]
  have hhead : ∀ c∈((trim version.toList).takeWhile fun c => decide (c≠ ',')).head?,
      isSpace c=false := by
    intro c hc
    refine head_trim version.toList c ?_
    have hwithin := List.takeWhile_prefix (l := trim version.toList) fun c => decide (c≠ ',')
    obtain ⟨rest,hrest⟩ := hwithin
    obtain ⟨more,hmore⟩ := List.head?_eq_some_iff.mp hc
    rw [← hrest,hmore]
    rfl
  rw [← parse_writtenBound hhead hmem]
  unfold parseConfigLowerBoundVersion
  dsimp only
  split
  · rename_i hempty
    rw [hempty]
    decide
  · rfl

end Bounds

section Covered

variable {Node : Type} (ini : RawConfig Node)

/-- The rules a run tries on a tree: none on the fast path. -/
def triedRules (host : String) (root : Json) (conf : Option Node) : List MigrationRule :=
  if configSatisfies host (some root) && !conf.any (hasOutdatedIniKeys ini) then []
  else appliedRules root

/-- The tree a run leads to. -/
def migratedTree (formatJson : Json → String) (host : String) (root : Json)
    (conf : Option Node) : Json :=
  (planMigration ini formatJson host (some root) conf).config.getD root

/-- Outside the versions a run does what the rules it tries do. -/
theorem nodeAt_migratedTree (formatJson : Json → String) (host : String) (members : List (String×Json))
    (conf : Option Node) {place : Location} (hversion : Apart place [.key "version"])
    (hlegacy : Apart place [.key "vinput_version"]) :
    nodeAt place (migratedTree ini formatJson host (.object members) conf)=
      nodeAt place (migrateAll (triedRules ini host (.object members) conf) (.object members)) := by
  unfold migratedTree planMigration triedRules
  split
  · rfl
  · exact nodeAt_migrateConfig formatJson members hversion hlegacy

/-- Rules that the version of a tree covers are not applied to it. -/
structure CoveredSkipped (formatJson : Json → String) (version : String) : Prop where
  skipped : ∀ {Node : Type} (ini : RawConfig Node) host members conf rule ruleVersion,
    List.lookup "version" members=some (.text version) →
    parse rule.version.toList=some ruleVersion → Covers version.toList ruleVersion →
    rule∉triedRules ini host (.object members) conf
  /-- What only such rules name is kept. -/
  kept : ∀ {Node : Type} (ini : RawConfig Node) host members conf place value,
    List.lookup "version" members=some (.text version) →
    Apart place [.key "version"] → Apart place [.key "vinput_version"] →
    (∀ rule∈configRules, ∀ ruleVersion, parse rule.version.toList=some ruleVersion →
      ¬Covers version.toList ruleVersion → ApartFrom (fullPattern rule) place) →
    nodeAt place (.object members)=some value →
    nodeAt place (migratedTree ini formatJson host (.object members) conf)=some value

/-- Rules that some token is past are those the first token is past. -/
def BoundFirst (version : String) : Prop :=
  ∀ rule∈configRules, ∀ ruleVersion, parse rule.version.toList=some ruleVersion →
    (∃ token∈tokens version.toList, ∃ floor, tokenFloor token=some floor ∧ ¬floor<ruleVersion) →
    ∃ bound, firstBound version.toList=some bound ∧ ¬bound<ruleVersion

/-- Every rule of the program has a version. -/
theorem configRules_versions : ∀ rule∈configRules, ∃ ruleVersion,
    parse rule.version.toList=some ruleVersion ∧ (⟨0,0,0⟩ : SemanticVersion)<ruleVersion := by
  have htable : (configRules.all fun rule => (parse rule.version.toList).any fun version =>
      decide ((⟨0,0,0⟩ : SemanticVersion)<version))=true := by
    decide +kernel
  intro rule hrule
  have hrow := List.all_eq_true.mp htable rule hrule
  obtain ⟨version,hversion,hpositive⟩ := (Option.any_eq_true _ _).mp hrow
  exact ⟨version,hversion,of_decide_eq_true hpositive⟩

/-- A rule of the tree is applied unless the bound that is read is past it. -/
theorem ruleApplies_iff {rule : MigrationRule} (hrule : rule∈configRules)
    {ruleVersion : SemanticVersion} (hversion : parse rule.version.toList=some ruleVersion)
    (bound : Option SemanticVersion) :
    ruleApplies bound rule=true ↔ ¬∃ low, bound=some low ∧ ¬low<ruleVersion := by
  have hnone := (List.mem_filter.mp hrule).2
  unfold ruleApplies at hnone ⊢
  rw [hversion] at hnone ⊢
  cases htarget : rule.targetFile with
  | vinputConf => rw [htarget] at hnone; cases hnone
  | configJson =>
    cases bound with
    | none => simp
    | some low => simp

/-- Rules that are tried are past what the tree has reached. -/
theorem triedRules_subset {host : String} {root : Json} {conf : Option Node}
    {rule : MigrationRule} (h : rule∈triedRules ini host root conf) :
    rule∈configRules ∧ ruleApplies (configVersion root) rule=true := by
  unfold triedRules at h
  split at h
  · cases h
  · exact ⟨(appliedRules_sublist root).subset h,(List.mem_filter.mp h).2⟩

/-- A rule that applies is tried, as the fast path asks for every rule. -/
theorem mem_triedRules {members : List (String×Json)} {rule : MigrationRule} {version : String}
    (hmembers : members.lookup "version"=some (.text version)) (hrule : rule∈configRules)
    {ruleVersion : SemanticVersion} (hversion : parse rule.version.toList=some ruleVersion)
    (h : ruleApplies (parseConfigLowerBoundVersion version) rule=true) (host : String)
    (conf : Option Node) : rule∈triedRules ini host (.object members) conf := by
  have hmem := (List.mem_filter.mp hrule).1
  have hslow : configSatisfies host (some (.object members))=false := by
    dsimp only [configSatisfies,Json.find]
    rw [hmembers]
    cases hlegacy : members.lookup "vinput_version" with
    | some legacy => rfl
    | none =>
      dsimp only
      cases hlow : parseConfigLowerBoundVersion version with
      | none => rfl
      | some low =>
        have hbelow : low<getMaxRuleVersion := by
          by_contra hreached
          refine (ruleApplies_iff hrule hversion _).mp h ⟨low,hlow,?_⟩
          exact SemanticVersion.not_lt_of_not_lt hreached
            (getRules_bounded rule hmem ruleVersion hversion)
        simp [hbelow]
  unfold triedRules appliedRules
  rw [hslow,configVersion_of_text hmembers]
  exact List.mem_filter.mpr ⟨hmem,h⟩

/-- Rules that a version covers are skipped exactly when the first token is
past every rule that some token is past. -/
theorem covered_skipped_iff (formatJson : Json → String) {version : String}
    (h : ∃ current, Met version.toList current) :
    CoveredSkipped formatJson version ↔ BoundFirst version := by
  have hread := parseConfigLowerBoundVersion_eq h
  constructor
  · intro hskipped rule hrule ruleVersion hversion htoken
    obtain ⟨_,hsame,hpositive⟩ := configRules_versions rule hrule
    rw [hversion,Option.some.injEq] at hsame
    subst hsame
    have hcovers := (covers_iff h hpositive).mpr htoken
    by_contra hbound
    rw [← hread] at hbound
    have happlies := (ruleApplies_iff hrule hversion _).mpr hbound
    have hmembers : List.lookup "version" [("version",Json.text version)]=some (.text version) :=
      rfl
    exact hskipped.skipped flatItems "" _ none rule ruleVersion hmembers hversion hcovers
      (mem_triedRules flatItems hmembers hrule hversion happlies "" none)
  · intro hfirst
    have hskipped : ∀ {Node : Type} (ini : RawConfig Node) host members conf rule ruleVersion,
        List.lookup "version" members=some (.text version) →
        parse rule.version.toList=some ruleVersion → Covers version.toList ruleVersion →
        rule∉triedRules ini host (.object members) conf := by
      intro Node ini host members conf rule ruleVersion hmembers hversion hcovers htried
      obtain ⟨hrule,happlies⟩ := triedRules_subset ini htried
      obtain ⟨_,hsame,hpositive⟩ := configRules_versions rule hrule
      rw [hversion,Option.some.injEq] at hsame
      subst hsame
      rw [configVersion_of_text hmembers,hread,ruleApplies_iff hrule hversion] at happlies
      exact happlies (hfirst rule hrule ruleVersion hversion ((covers_iff h hpositive).mp hcovers))
    refine ⟨hskipped,?_⟩
    intro Node ini host members conf place value hmembers hplace hlegacy hnamed hvalue
    rw [nodeAt_migratedTree ini formatJson host members conf hplace hlegacy]
    refine migrateAll_kept (fun rule htried => ?_) hvalue
    obtain ⟨hrule,_⟩ := triedRules_subset ini htried
    obtain ⟨ruleVersion,hversion,_⟩ := configRules_versions rule hrule
    refine hnamed rule hrule ruleVersion hversion fun hcovers => ?_
    exact hskipped ini host members conf rule ruleVersion hmembers hversion hcovers htried

/-- A tree whose first token is a bound from above. -/
def cappedTree : Json :=
  .object [("version",.text "<3.0, >=2.4.0"),
    ("asr",.object [("vad",.object [("threshold",.number 0.45)])])]

/-- The bound behind the first token is not seen, so that a value is replaced
which the user has set. -/
theorem capped_value_replaced :
    satisfies "2.4.2".toList "<3.0, >=2.4.0".toList=true ∧
    Covers "<3.0, >=2.4.0".toList getMaxRuleVersion ∧
    (nodeAt [.key "asr",.key "vad",.key "threshold"]
      (migratedTree flatItems (fun _ => "") "2.4.2" cappedTree none)).bind readNumber=some 0.35 ∧
    ¬CoveredSkipped (fun _ => "") "<3.0, >=2.4.0" := by
  have hmet : ∃ current, Met "<3.0, >=2.4.0".toList current :=
    ⟨⟨2,4,2⟩,"2.4.2".toList,by decide +kernel,by decide +kernel⟩
  have hcovers : Covers "<3.0, >=2.4.0".toList getMaxRuleVersion := by
    refine (covers_iff hmet (by decide +kernel)).mpr ?_
    exact ⟨" >=2.4.0".toList,by decide +kernel,⟨2,4,0⟩,by decide +kernel,by decide +kernel⟩
  have hreplaced : (nodeAt [.key "asr",.key "vad",.key "threshold"]
      (migratedTree flatItems (fun _ => "") "2.4.2" cappedTree none)).bind readNumber=some 0.35 := by
    decide +kernel
  refine ⟨by decide +kernel,hcovers,hreplaced,fun hskipped => ?_⟩
  have hkept := hskipped.kept flatItems "2.4.2"
    [("version",.text "<3.0, >=2.4.0"),
      ("asr",.object [("vad",.object [("threshold",.number 0.45)])])] none
    [.key "asr",.key "vad",.key "threshold"] (.number 0.45) rfl (by simp [Apart]) (by simp [Apart])
    ?_ rfl
  · unfold cappedTree at hreplaced
    rw [hkept] at hreplaced
    revert hreplaced
    decide +kernel
  · intro rule hrule ruleVersion hversion huncovered
    refine absurd ?_ huncovered
    intro current hcurrent
    exact SemanticVersion.not_lt_of_not_lt (hcovers current hcurrent)
      (getRules_bounded rule (List.mem_filter.mp hrule).1 ruleVersion hversion)

/-- With the lower bound first all rules are skipped. -/
theorem capped_behind_skipped : CoveredSkipped (fun _ => "") ">=2.4.0,<3.0" := by
  have hmet : ∃ current, Met ">=2.4.0,<3.0".toList current :=
    ⟨⟨2,4,2⟩,"2.4.2".toList,by decide +kernel,by decide +kernel⟩
  refine (covered_skipped_iff (fun _ => "") hmet).mpr ?_
  intro rule hrule ruleVersion hversion _
  refine ⟨getMaxRuleVersion,by decide +kernel,?_⟩
  exact getRules_bounded rule (List.mem_filter.mp hrule).1 ruleVersion hversion

end Covered

end Vinput.ConfigMigrationBounds
