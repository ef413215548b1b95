import AnalysisProject.Proofs.Settings.Reading

namespace AnalysisProject

namespace Environment

def Variable.key : Variable → Text
  | indent => "PROJECT_FILE_INDENT"
  | debug => "PROJECT_FILE_DEBUG"
  | reportClangAnalyzer => "PROJECT_FILE_REPORT_CLANG_ANALYZER"

theorem Variable.key_eq_name (v : Variable) : v.key = v.name := by
  cases v <;> rfl

def IsSet (env : Environment) (v : Variable) (raw : Text) : Prop :=
  env.lookup v.key = some raw ∧ raw ≠ []

def IsFine (env : Environment) (v : Variable) : Prop := ∀ raw, env.IsSet v raw → v.Accepts raw

/-- The variable is set to a text that it does not accept, and those before it are well formed. -/
structure IsFirstOffence (env : Environment) (v : Variable) (raw : Text) : Prop where
  isSet : env.IsSet v raw
  refused : ¬ v.Accepts raw
  first : ∃ earlier later,
    [.indent, .debug, .reportClangAnalyzer] = earlier ++ v :: later ∧ ∀ w ∈ earlier, env.IsFine w

/-- The value of one setting: the one that is given, or that of the environment, or the default. -/
inductive IsChosen {α : Type} (env : Environment) (v : Variable) (denotes : Text → α → Prop)
    (default : α) :
    Option α → α → Prop
  | given (a : α) : IsChosen env v denotes default (some a) a
  | environment {raw : Text} {a : α} : env.IsSet v raw → denotes raw a →
    IsChosen env v denotes default none a
  | default : (∀ raw, ¬ env.IsSet v raw) → IsChosen env v denotes default none default

structure IsResolved (env : Environment) (given : GivenSettings) (s : Settings) : Prop where
  indentBy : env.IsChosen .indent (fun raw unit ↦ ∃ n, IsCount raw n ∧
    unit = List.replicate n CodeUnit.space) "  "
    given.indentBy s.indentBy
  debug : env.IsChosen .debug IsFlag false given.debug s.debug
  reportClangAnalyzer :
    env.IsChosen .reportClangAnalyzer IsFlag false given.reportClangAnalyzer s.reportClangAnalyzer

inductive Reads {α : Type} (env : Environment) (v : Variable) (denotes : Text → α → Prop) :
    Except Failure (Option α) → Prop
  | unset : (∀ raw, ¬ env.IsSet v raw) → Reads env v denotes (.ok none)
  | value {raw : Text} {a : α} : env.IsSet v raw → v.Accepts raw → denotes raw a →
    Reads env v denotes (.ok (some a))
  | refused {raw : Text} {f : Failure} :
      env.IsSet v raw → ¬ v.Accepts raw → f.IsRaisedFor v raw → Reads env v denotes (.error f)

variable {env : Environment} {v : Variable} {α : Type} {denotes : Text → α → Prop}

theorem IsSet.unique {raw other : Text} (h : env.IsSet v raw) (h' : env.IsSet v other) :
    raw = other :=
  Option.some.inj (h.1.symm.trans h'.1)

theorem value?_eq_some_iff {raw : Text} : env.value? v = some raw ↔ env.IsSet v raw := by
  rw [value?, Option.filter_eq_some_iff, Bool.not_eq_true', List.isEmpty_eq_false_iff, IsSet,
    v.key_eq_name]

theorem reads_readWith {read : Text → Except Failure α}
    (h : ∀ raw, IsJudged v denotes raw (read raw)) :
    env.Reads v denotes (env.readWith read v) := by
  cases hv : env.value? v with
  | none =>
    rw [readWith, hv]
    exact .unset fun raw hset ↦ nomatch hv.symm.trans (value?_eq_some_iff.mpr hset)
  | some raw =>
    have hset := value?_eq_some_iff.mp hv
    have hjudged := h raw
    have hwith : env.readWith read v = (read raw).map some := by rw [readWith, hv]
    rw [hwith]
    generalize read raw = result at hjudged
    cases hjudged with
    | accepted haccepts hdenotes => exact .value hset haccepts hdenotes
    | refused hrefused hraised => exact .refused hset hrefused hraised

namespace Reads

variable {value : Option α}

theorem isFine (h : env.Reads v denotes (.ok value)) : env.IsFine v := by
  intro raw hset
  cases h with
  | unset hunset => exact absurd hset (hunset raw)
  | value hset' haccepts _ => exact hset'.unique hset ▸ haccepts

theorem map {β : Type} (h : env.Reads v denotes (.ok value)) (f : α → β) :
    env.Reads v (fun raw b ↦ ∃ a, denotes raw a ∧ b = f a) (.ok (value.map f)) := by
  cases h with
  | unset hunset => exact .unset hunset
  | value hset haccepts hdenotes => exact .value hset haccepts ⟨_, hdenotes, rfl⟩

/-- If a text denotes one value at most, the choice is made as soon as the variable has been read.
-/
theorem isChosen_iff (h : env.Reads v denotes (.ok value))
    (hunique : ∀ raw a b, denotes raw a → denotes raw b → a = b) (default : α)
    (given : Option α) (a : α) :
    env.IsChosen v denotes default given a ↔ a = (given.or value).getD default := by
  cases given with
  | some b =>
    constructor
    · rintro ⟨⟩
      rfl
    · rintro rfl
      exact .given _
  | none =>
    cases h with
    | unset hunset =>
      constructor
      · intro hchosen
        cases hchosen with
        | environment hset _ => exact absurd hset (hunset _)
        | default _ => rfl
      · rintro rfl
        exact .default hunset
    | value hset _ hdenotes =>
      constructor
      · intro hchosen
        cases hchosen with
        | environment hset' hdenotes' =>
          exact hunique _ _ _ (hset.unique hset' ▸ hdenotes') hdenotes
        | default hunset => exact absurd hset (hunset _)
      · rintro rfl
        exact .environment hset hdenotes

theorem exists_isFirstOffence {f : Failure} (h : env.Reads v denotes (.error f))
    (earlier : List Variable)
    (hfirst : ∃ later, [.indent, .debug, .reportClangAnalyzer] = earlier ++ v :: later)
    (hfine : ∀ w ∈ earlier, env.IsFine w) : ∃ v raw, env.IsFirstOffence v raw ∧
      f.IsRaisedFor v raw := by
  obtain ⟨later, hall⟩ := hfirst
  cases h with
  | refused hset hrefused hraised =>
    exact ⟨v, _, ⟨hset, hrefused, earlier, later, hall, hfine⟩, hraised⟩

end Reads

inductive Resolves (env : Environment) (given : GivenSettings) : Except Failure Settings → Prop
  | resolved {s : Settings} :
      (∀ v, env.IsFine v) → (∀ t, env.IsResolved given t ↔ t = s) → Resolves env given (.ok s)
  | failed {f : Failure} : (∃ v raw, env.IsFirstOffence v raw ∧ f.IsRaisedFor v raw) →
    Resolves env given (.error f)

def Overrides.under (o : Overrides) (given : GivenSettings) : Settings where
  indentBy := (given.indentBy.or (o.indent.map blanks)).getD Project.defaultUnit
  debug := (given.debug.or o.debug).getD false
  reportClangAnalyzer := (given.reportClangAnalyzer.or o.reportClangAnalyzer).getD false

theorem resolve_eq_map (env : Environment) (given : GivenSettings) :
    Settings.resolve given env = env.overrides.map (·.under given) := by
  rw [Settings.resolve]
  cases env.overrides with
  | error f => rfl
  | ok o =>
    obtain ⟨indent, debug, report⟩ := o
    obtain ⟨unit, _, _⟩ := given
    cases unit <;> cases indent <;> rfl

theorem isResolved_iff {o : Overrides} (hindent : env.Reads .indent IsCount (.ok o.indent))
    (hdebug : env.Reads .debug IsFlag (.ok o.debug))
    (hreport : env.Reads .reportClangAnalyzer IsFlag (.ok o.reportClangAnalyzer))
    (given : GivenSettings) (s : Settings) : env.IsResolved given s ↔ s = o.under given := by
  have hunits (raw unit other : Text) (h : ∃ n, IsCount raw n ∧ unit = blanks n)
      (h' : ∃ n, IsCount raw n ∧ other = blanks n) : unit = other := by
    obtain ⟨n, hn, rfl⟩ := h
    obtain ⟨m, hm, rfl⟩ := h'
    rw [hn.unique hm]
  have hflags (raw : Text) (a b : Bool) (ha : IsFlag raw a) (hb : IsFlag raw b) : a = b :=
    ha.unique hb
  have hunit :=
    (hindent.map blanks).isChosen_iff hunits Project.defaultUnit given.indentBy s.indentBy
  have hdebug := hdebug.isChosen_iff hflags false given.debug s.debug
  have hreport := hreport.isChosen_iff hflags false given.reportClangAnalyzer s.reportClangAnalyzer
  constructor
  · rintro ⟨hi, hd, hr⟩
    cases s
    rw [Overrides.under, Settings.mk.injEq]
    exact ⟨hunit.mp hi, hdebug.mp hd, hreport.mp hr⟩
  · rintro rfl
    exact ⟨hunit.mpr rfl, hdebug.mpr rfl, hreport.mpr rfl⟩

theorem resolves_resolve (env : Environment) (given : GivenSettings) :
    env.Resolves given (Settings.resolve given env) := by
  have hindent : env.Reads .indent IsCount (env.readWith readCount .indent) :=
    reads_readWith isJudged_readCount
  have hflag {v : Variable} (hv : v ≠ .indent) : env.Reads v IsFlag (env.readWith (readFlag v) v) :=
    reads_readWith (isJudged_readFlag hv)
  have hdebug := hflag (v := .debug) nofun
  have hreport := hflag (v := .reportClangAnalyzer) nofun
  rw [resolve_eq_map, overrides]
  generalize env.readWith readCount .indent = indent at hindent ⊢
  generalize env.readWith (readFlag .debug) .debug = debug at hdebug ⊢
  generalize env.readWith (readFlag .reportClangAnalyzer) .reportClangAnalyzer = report at hreport ⊢
  -- The variables are read one after the other, and the first that cannot be read ends it.
  cases indent with
  | error f => exact .failed (hindent.exists_isFirstOffence [] ⟨_, rfl⟩ nofun)
  | ok indent =>
    cases debug with
    | error f =>
      refine .failed (hdebug.exists_isFirstOffence [.indent] ⟨_, rfl⟩ fun w hw ↦ ?_)
      exact List.mem_singleton.mp hw ▸ hindent.isFine
    | ok debug =>
      cases report with
      | error f =>
        refine .failed (hreport.exists_isFirstOffence [.indent, .debug] ⟨_, rfl⟩ fun w hw ↦ ?_)
        rcases List.mem_cons.mp hw with rfl | hw
        · exact hindent.isFine
        · exact List.mem_singleton.mp hw ▸ hdebug.isFine
      | ok report =>
        refine .resolved (fun v ↦ ?_)
          (isResolved_iff (o := ⟨indent, debug, report⟩) hindent hdebug hreport given)
        cases v with
        | indent => exact hindent.isFine
        | debug => exact hdebug.isFine
        | reportClangAnalyzer => exact hreport.isFine

/-- Settings are found exactly if every variable that is set is well formed. Which ones, or what is
raised instead, is determined by the variables and the settings that are given. -/
theorem exists_resolve_iff_and_resolves (env : Environment) (given : GivenSettings) :
    ((∃ s, Settings.resolve given env = .ok s) ↔ ∀ v, env.IsFine v) ∧
      env.Resolves given (Settings.resolve given env) := by
  have hresolves := env.resolves_resolve given
  refine ⟨?_, hresolves⟩
  generalize Settings.resolve given env = result at hresolves
  cases hresolves with
  | resolved hfine _ => exact iff_of_true ⟨_, rfl⟩ hfine
  | failed hoffence =>
    obtain ⟨v, raw, hfirst, -⟩ := hoffence
    exact iff_of_false nofun fun hfine ↦ hfirst.refused (hfine v raw hfirst.isSet)

example : Settings.resolve { debug := some false } [("PROJECT_FILE_INDENT", " 003\n"),
    ("PROJECT_FILE_DEBUG", "YES"), ("PROJECT_FILE_REPORT_CLANG_ANALYZER", "oN")] =
  .ok ⟨"   ", false, true⟩ := by decide +kernel

end Environment
end AnalysisProject
