import DataCube.Settings
import Mathlib.Data.List.Basic
import Mathlib.Data.List.Induction

/-!
# Layered settings

What becomes of a setting when sources are laid over each other. The first step of a path tells
which setting an entry is about (`SettingPath.setting`), and layering an entry changes no other one.
So a setting depends on the entries about it and on nothing else, neither on the entries for other
settings between them nor on which source they stand in (`ofSources_congr`), and what is given for
anything else is without effect (`ofSources_filter`, `ofSources_eq_defaults`).

A plain value takes the place of everything given for its setting before (`get?_given_of_last`).
Loading is therefore told setting by setting (`load_eq_ok_iff`): the last variable of the
environment that gives the setting decides, without one the document, and the default where nothing
is given.
-/

namespace DataCube

/-! ## The setting of an entry -/

namespace SettingPath

theorem readSteps?_point {fuel : Nat} {cs : List Char} {path : SettingPath}
    (h : readSteps? (fuel + 1) ('.' :: cs) = some path) : ∃ n rest, path = .name n :: rest := by
  simp only [readSteps?] at h
  split at h
  · simp at h
  · obtain ⟨rest, -, rfl⟩ := Option.map_eq_some_iff.1 h
    exact ⟨_, rest, rfl⟩

theorem exists_ofName (name : String) : ∃ n rest, ofName name = .name n :: rest := by
  cases h : readSteps? ('.' :: name.toList).length ('.' :: name.toList) with
  | none => exact ⟨name, [], by simp only [ofName, h, Option.getD_none]⟩
  | some path => simpa only [ofName, h, Option.getD_some] using readSteps?_point h

/-- The setting that a name says something about: where its path starts. -/
def setting (name : String) : String :=
  match ofName name with
  | .name n :: _ => n
  | _ => name

theorem ofName_eq (name : String) : ofName name = .name (setting name) :: (ofName name).tail := by
  obtain ⟨n, rest, h⟩ := exists_ofName name
  simp [setting, h]

end SettingPath

/-! ## Layering -/

namespace Setting

open SettingPath (setting)

/-- Lays one named value over what is given so far. -/
def lay (s : Setting) (e : String × Setting) : Setting := update (merge e.2) (.ofName e.1) s

theorem layer_eq (source : Bindings Setting) (s : Setting) :
    s.layer source = source.entries.foldl lay s := rfl

/-- An entry changes its own setting only. -/
theorem get?_lay (s : Setting) (e : String × Setting) (name : String) :
    (s.lay e).get? name =
      if setting e.1 = name then
        some (update (merge e.2) (SettingPath.ofName e.1).tail ((s.get? name).getD absent))
      else s.get? name := by
  rw [lay, SettingPath.ofName_eq, get?_update]
  by_cases h : setting e.1 = name <;> simp [h]

/-- What a setting becomes depends on what it was and on the entries about it. -/
theorem get?_foldl_lay {name : String} (es : List (String × Setting)) {s t : Setting}
    (h : s.get? name = t.get? name) :
    (es.foldl lay s).get? name =
      ((es.filter fun e => setting e.1 = name).foldl lay t).get? name := by
  induction es generalizing s t with
  | nil => exact h
  | cons e es ih =>
    by_cases he : setting e.1 = name
    · rw [List.filter_cons_of_pos (by simpa using he)]
      exact ih (by rw [get?_lay, get?_lay, h])
    · rw [List.filter_cons_of_neg (by simpa using he)]
      exact ih (by rw [get?_lay, if_neg he, h])

/-- The value is not a table, so it takes the place of what it is laid over. -/
def IsPlain : Setting → Prop
  | table _ => False
  | _ => True

theorem merge_of_isPlain {v : Setting} (h : v.IsPlain) (s : Setting) : merge v s = v := by
  cases v with
  | table es => exact h.elim
  | _ => rfl

/-- A plain value for a whole setting takes the place of what was given for it. -/
theorem get?_lay_of_isPlain {name : String} {v : Setting}
    (hname : SettingPath.ofName name = [.name name]) (h : v.IsPlain) (s : Setting) :
    (s.lay (name, v)).get? name = some v := by
  rw [get?_lay, if_pos (by simp [setting, hname]), hname]
  simp [update, merge_of_isPlain h]

end Setting

namespace Settings

open SettingPath (setting)

/-- The names of the settings. -/
def names : List String := ["parallel_threshold", "lineage_cache", "log_filter"]

/-- Every name of a setting stands for itself. -/
theorem ofName_of_mem_names : ∀ name ∈ names, SettingPath.ofName name = [.name name] := by
  decide

theorem given_eq (sources : List (Bindings Setting)) :
    given sources = (sources.flatMap Bindings.entries).foldl Setting.lay (.table .empty) := by
  simp only [given, Setting.layer_eq, List.foldl_flatMap]

/-- The entries of sources about a setting, in the order in which they are laid. -/
def about (name : String) (sources : List (Bindings Setting)) : List (String × Setting) :=
  (sources.flatMap Bindings.entries).filter fun e => setting e.1 = name

theorem get?_given (name : String) (sources : List (Bindings Setting)) :
    (given sources).get? name =
      ((about name sources).foldl Setting.lay (.table .empty)).get? name := by
  rw [given_eq, Setting.get?_foldl_lay _ rfl, about]

/-- Of a setting, what is given last stays, if it is a plain value. -/
theorem get?_given_of_last {name : String} (hname : name ∈ names)
    {sources : List (Bindings Setting)} {earlier : List (String × Setting)} {v : Setting}
    (h : v.IsPlain) (habout : about name sources = earlier ++ [(name, v)]) :
    (given sources).get? name = some v := by
  rw [get?_given, habout, List.foldl_append, List.foldl_cons, List.foldl_nil,
    Setting.get?_lay_of_isPlain (ofName_of_mem_names name hname) h]

/-- What a setting is told to be: the default if nothing is given for it. -/
def Says {α : Type} (default : α) (convert : Setting → Option α) (v : Option Setting) (x : α) :
    Prop :=
  v.elim (x = default) fun v => convert v = some x

theorem choose_eq_ok_iff {α : Type} {name : String} {default : α} {convert : Setting → Option α}
    {given : Setting} {x : α} :
    choose name default convert given = .ok x ↔ Says default convert (given.get? name) x := by
  unfold choose Says
  cases given.get? name with
  | none => simp [eq_comm]
  | some v => cases h : convert v <;> simp [h]

/-- The settings are those that are told by what is given for their names. -/
@[mk_iff]
structure AsTold (told : String → Option Setting) (x : Settings) : Prop where
  parallelThreshold :
    Says defaults.parallelThreshold count? (told "parallel_threshold") x.parallelThreshold
  lineageCache : Says defaults.lineageCache policy? (told "lineage_cache") x.lineageCache
  logFilter : Says defaults.logFilter text? (told "log_filter") x.logFilter

theorem AsTold.congr {told others : String → Option Setting}
    (h : ∀ name ∈ names, told name = others name) (x : Settings) :
    AsTold told x ↔ AsTold others x := by
  rw [asTold_iff, asTold_iff, h "parallel_threshold" (by decide), h "lineage_cache" (by decide),
    h "log_filter" (by decide)]

theorem ofSources_eq_ok_iff {sources : List (Bindings Setting)} {x : Settings} :
    ofSources sources = .ok x ↔ AsTold (given sources).get? x := by
  simp only [asTold_iff, ← choose_eq_ok_iff, ofSources]
  obtain ⟨threshold, policy, filter⟩ := x
  cases choose "parallel_threshold" defaults.parallelThreshold count? (given sources) <;>
    cases choose "lineage_cache" defaults.lineageCache policy? (given sources) <;>
    cases choose "log_filter" defaults.logFilter text? (given sources) <;>
    simp [bind, Except.bind, pure, Except.pure]

/-- Sources that say the same about every setting give the same settings or the same error. -/
theorem ofSources_congr {sources others : List (Bindings Setting)}
    (h : ∀ name ∈ names, about name sources = about name others) :
    ofSources sources = ofSources others := by
  have hgiven (name : String) (hname : name ∈ names) :
      (given sources).get? name = (given others).get? name := by
    rw [get?_given, get?_given, h name hname]
  simp only [ofSources, choose, hgiven _ (by decide : "parallel_threshold" ∈ names),
    hgiven _ (by decide : "lineage_cache" ∈ names), hgiven _ (by decide : "log_filter" ∈ names)]

/-- What is given for anything but a setting is without effect. -/
theorem ofSources_filter (sources : List (Bindings Setting)) :
    ofSources (sources.map fun source =>
        ⟨source.entries.filter fun e => setting e.1 ∈ names⟩) = ofSources sources := by
  refine ofSources_congr fun name hname => ?_
  simp only [about, List.flatMap_map, List.filter_flatMap, List.filter_filter]
  refine List.flatMap_congr fun source _ => List.filter_congr fun e _ => ?_
  by_cases he : setting e.1 = name
  · simp [he, hname]
  · simp [he]

/-- Sources that say nothing about the settings leave the defaults. -/
theorem ofSources_eq_defaults {sources : List (Bindings Setting)}
    (h : ∀ source ∈ sources, ∀ e ∈ source.entries, setting e.1 ∉ names) :
    ofSources sources = .ok defaults := by
  refine (ofSources_congr fun name hname => ?_ : ofSources sources = ofSources [])
  refine List.filter_eq_nil_iff.2 fun e he => ?_
  obtain ⟨source, hsource, he⟩ := List.mem_flatMap.1 he
  have hother : setting e.1 ≠ name := fun hname' => h source hsource e he (hname' ▸ hname)
  simpa using hother

/-! ## The environment -/

/-- The text of the last variable that gives a setting. -/
def fromEnvironment? (environment : List (String × String)) (name : String) : Option String :=
  ((environment.filter fun v => givenName? v.1 = some name).getLast?).map Prod.snd

/-- No variable says something about a part of the setting only. -/
def Whole (environment : List (String × String)) (name : String) : Prop :=
  ∀ v ∈ environment, ∀ n, givenName? v.1 = some n → setting n = name → n = name

theorem setting_of_mem_names {name : String} (h : name ∈ names) : setting name = name := by
  simp [setting, ofName_of_mem_names name h]

theorem readVariable_isPlain (text : String) : (readVariable text).IsPlain := by
  unfold readVariable
  dsimp only
  split
  · trivial
  split
  · trivial
  split
  · trivial
  split <;> trivial

/-- A variable changes what is given for its own setting, as a whole, and for no other one. -/
theorem filter_addVariable {name : String} (hname : name ∈ names) (given : Bindings Setting)
    (v : String × String)
    (hwhole : ∀ n, givenName? v.1 = some n → setting n = name → n = name) :
    ((addVariable given v).entries.filter fun e => setting e.1 = name) =
      if givenName? v.1 = some name then
        Bindings.insertIn name (readVariable v.2) (given.entries.filter fun e => setting e.1 = name)
      else given.entries.filter fun e => setting e.1 = name := by
  unfold addVariable
  cases hgiven : givenName? v.1 with
  | none => simp
  | some n =>
    refine (Bindings.filter_insertIn (fun m => setting m = name) n _ _).trans ?_
    by_cases hn : n = name
    · simp [hn, setting_of_mem_names hname]
    · simp [hn, mt (hwhole n hgiven) hn]

/-- The environment says at most one thing about a setting: what its last variable gives. -/
theorem about_ofEnvironment {name : String} (hname : name ∈ names)
    (environment : List (String × String)) (hwhole : Whole environment name) :
    about name [ofEnvironment ⟨environment⟩] =
      ((fromEnvironment? environment name).map fun text => (name, readVariable text)).toList := by
  simp only [about, List.flatMap_cons, List.flatMap_nil, List.append_nil, ofEnvironment]
  induction environment using List.reverseRecOn with
  | nil => rfl
  | append_singleton environment v ih =>
    rw [List.foldl_append, List.foldl_cons, List.foldl_nil,
      filter_addVariable hname _ v (hwhole v (by simp)),
      ih fun v hv => hwhole v (List.mem_append_left _ hv)]
    by_cases hv : givenName? v.1 = some name
    · rw [if_pos hv]
      cases h : fromEnvironment? environment name <;>
        simp [Bindings.insertIn, fromEnvironment?, hv]
    · simp [fromEnvironment?, hv]

/-! ## Loading -/

/-- What is told about a setting: by its variable, or else by the document. -/
def told? (document : Bindings Setting) (environment : List (String × String)) (name : String) :
    Option Setting :=
  ((fromEnvironment? environment name).map readVariable).or ((given [document]).get? name)

theorem get?_given_ofEnvironment {name : String} (hname : name ∈ names)
    (document : Bindings Setting) (environment : List (String × String))
    (hwhole : Whole environment name) :
    (given [document, ofEnvironment ⟨environment⟩]).get? name =
      told? document environment name := by
  have habout : about name [document, ofEnvironment ⟨environment⟩] =
      about name [document] ++ about name [ofEnvironment ⟨environment⟩] := by
    simp [about, List.filter_append]
  rw [about_ofEnvironment hname environment hwhole] at habout
  unfold told?
  cases hgiven : fromEnvironment? environment name with
  | none =>
    rw [hgiven, Option.map_none, Option.toList_none, List.append_nil] at habout
    rw [get?_given, habout, ← get?_given, Option.map_none, Option.none_or]
  | some text =>
    rw [hgiven, Option.map_some, Option.toList_some] at habout
    rw [get?_given_of_last hname (readVariable_isPlain text) habout, Option.map_some,
      Option.some_or]

/-- The settings are loaded setting by setting: the last variable that gives a setting decides,
without one the document does, and the default stays where nothing is given. Variables for parts of
a setting are set aside. -/
theorem load_eq_ok_iff {file : Option String} {environment : List (String × String)}
    (hwhole : ∀ name ∈ names, Whole environment name) {x : Settings} :
    load file ⟨environment⟩ = .ok x ↔
      ∃ document, readFile file = .ok document ∧ AsTold (told? document environment) x := by
  cases hread : readFile file with
  | error e => simp [load, hread, bind, Except.bind]
  | ok document =>
    have hload : load file ⟨environment⟩ = ofSources [document, ofEnvironment ⟨environment⟩] := by
      simp [load, hread, bind, Except.bind]
    have htold (name : String) (hname : name ∈ names) :=
      get?_given_ofEnvironment hname document environment (hwhole name hname)
    rw [hload, ofSources_eq_ok_iff, AsTold.congr htold]
    simp

end Settings

end DataCube
