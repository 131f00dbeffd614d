/-
# Settings from text

The text of settings is read field by field. However it is arranged and whatever is said in it
besides, a setting that is left out has its default, all others are as they were written, and a
setting that is given twice is refused. This holds in all of the records at once, also in the one
that says what a generation does, where the name may come before or behind what belongs to it.

Floats are written by a function of the caller's; all that is needed is that the floats of the
settings can be read again.
-/

import EvoSearch.Config.Json
import EvoSearch.Proofs.Encoding
import EvoSearch.Proofs.Fractions
import EvoSearch.Proofs.Variations

namespace EvoSearch

open Json

variable {α β : Type} {dropped : List String → Bool} {real : Float → Json}

/-! ## Settings that are not refused -/

/-- Probabilities are finite. -/
theorem Numeric.isFinite_of_probability {x : Float} (zero_le : 0 ≤ x) (le_one : x ≤ 1) :
    x.isFinite = true := by
  have above := zero_le_iff.mp zero_le
  have below := (le_iff.mp le_one).2.2
  have one : height 1 < stepsToInfinity := by decide
  refine isFinite_iff.mpr ⟨?_, Int.lt_of_le_of_lt below one⟩
  exact Int.lt_of_lt_of_le (by decide) above

theorem EvolutionConfig.isFinite_of_validate {config : EvolutionConfig}
    (valid : config.validate = .ok ()) : config.migration.probability.isFinite = true := by
  by_cases bounded : (0 ≤ config.migration.probability && config.migration.probability ≤ 1) = true
  · rw [Bool.and_eq_true, decide_eq_true_iff, decide_eq_true_iff] at bounded
    exact Numeric.isFinite_of_probability bounded.1 bounded.2
  · simp only [validate, bounded, Bool.not_false, if_true] at valid
    split at valid
    · cases valid
    split at valid
    · cases valid
    split at valid
    · cases valid
    split at valid
    · split at valid
      all_goals cases valid
    · cases valid

/-- Settings that are accepted have weights that can be shared out. -/
theorem SyntheticConfig.weights_of_validate {config : SyntheticConfig}
    (valid : config.validate = .ok ()) :
    (∀ weight ∈ config.targetMix.toList, weight.isFinite = true ∧ ¬ weight < 0) ∧
      ¬ Numeric.sum config.targetMix.toList ≤ 0 := by
  cases refused : (config.targetMix.toList.any fun weight => !weight.isFinite || weight < 0) ||
      decide (Numeric.sum config.targetMix.toList ≤ 0) with
  | true =>
    simp only [validate, refused, if_true] at valid
    split at valid
    · cases valid
    split at valid
    all_goals cases valid
  | false =>
    rw [Bool.or_eq_false_iff, List.any_eq_false, decide_eq_false_iff_not] at refused
    refine ⟨fun weight mem => ?_, refused.2⟩
    have accepted := refused.1 weight mem
    simp only [Bool.or_eq_true, Bool.not_eq_true', decide_eq_true_eq, not_or,
      Bool.not_eq_false] at accepted
    exact accepted

theorem SyntheticConfig.isFinite_of_validate {config : SyntheticConfig}
    (valid : config.validate = .ok ()) {weight : Float} (mem : weight ∈ config.targetMix.toList) :
    weight.isFinite = true :=
  ((weights_of_validate valid).1 weight mem).1

namespace ExperimentConfig

/-- The parts of settings that are not refused are not refused, either. -/
theorem parts_of_validate {config : ExperimentConfig} (valid : config.validate = .ok ()) :
    config.evolution.validate = .ok () ∧ config.synthetic.validate = .ok () ∧
      ∀ seconds ∈ config.maxSeconds, seconds.isFinite = true := by
  rw [validate] at valid
  cases evolution : config.evolution.validate with
  | error reason =>
    rw [evolution] at valid
    cases valid
  | ok =>
    rw [evolution] at valid
    dsimp only at valid
    cases synthetic : config.synthetic.validate with
    | error reason =>
      rw [synthetic] at valid
      cases valid
    | ok =>
      refine ⟨rfl, rfl, ?_⟩
      intro seconds given
      rw [synthetic, Option.mem_def.mp given] at valid
      cases finite : seconds.isFinite with
      | true => rfl
      | false =>
        simp only [finite, Bool.and_false, Bool.not_false, if_true] at valid
        cases valid

/-- The floats among the settings. -/
def floats (config : ExperimentConfig) : List Float :=
  config.evolution.migration.probability :: config.synthetic.targetMix.toList ++
    config.maxSeconds.toList

theorem isFinite_of_validate {config : ExperimentConfig} (valid : config.validate = .ok ())
    {x : Float} (mem : x ∈ config.floats) : x.isFinite = true := by
  obtain ⟨evolution, synthetic, seconds⟩ := parts_of_validate valid
  rw [floats, List.mem_append, List.mem_cons] at mem
  rcases mem with (rfl | weight) | given
  · exact EvolutionConfig.isFinite_of_validate evolution
  · exact SyntheticConfig.isFinite_of_validate synthetic weight
  · exact seconds x (Option.mem_toList.mp given)

end ExperimentConfig

/-! ## Values -/

theorem Json.Number.toInt?_ofInt (i : Int) : (Number.ofInt i).toInt? = some i := by
  by_cases negative : i < 0
  · have whole : i.natAbs ≠ 0 := by omega
    have opposite : -(i.natAbs : Int) = i := by omega
    simp only [Number.ofInt, Number.toInt?, List.isEmpty_nil, Option.isNone_none, Bool.and_self,
      negative, decide_true, whole, if_true, if_false, opposite]
  · have same : (i.natAbs : Int) = i := by omega
    simp only [Number.ofInt, Number.toInt?, List.isEmpty_nil, Option.isNone_none, Bool.and_self,
      negative, decide_false, Bool.false_eq_true, if_true, if_false, same]

theorem Json.integer?_ofInt {low high i : Int} (low_le : low ≤ i) (lt_high : i < high) :
    integer? low high (.ofInt i) = some i := by
  rw [Json.ofInt, integer?, Number.toInt?_ofInt]
  exact if_pos ⟨low_le, lt_high⟩

theorem Json.word?_ofNat (word : UInt64) : word? (.ofNat word.toNat) = some word := by
  rw [word?, integer?_ofNat word.toNat_lt, Option.map_some, Int.toNat_natCast, UInt64.ofNat_toNat]

theorem Json.signedWord?_ofInt (word : Int64) : signedWord? (.ofInt word.toInt) = some word := by
  rw [signedWord?, integer?_ofInt word.minValue_le_toInt (Int.lt_add_one_of_le word.toInt_le),
    Option.map_some, Int64.ofInt_toInt]

/-- A word is not too large for a float. -/
theorem Json.isReadable_ofNat (depth : Nat) (word : UInt64) :
    isReadable depth (.ofNat word.toNat) = true := by
  have small : word.toNat < UInt64.size := word.toNat_lt
  have read : (Number.ofNat word.toNat).toFloat? = Number.scale? word.toFloat 0 := by
    simp [Number.toFloat?, Number.ofNat, Number.firstDigits, small, Number.addDigits]
  have scaled : Number.scale? word.toFloat 0 =
      if word.toFloat == 0 then some 0
      else if (word.toFloat * Float.ofScientific 1 false 0).isFinite then
        some (word.toFloat * Float.ofScientific 1 false 0)
      else none := rfl
  rw [Json.ofNat, isReadable, read, scaled]
  by_cases zero : word.toNat = 0
  · obtain rfl : word = 0 := UInt64.toNat_inj.mp zero
    rfl
  · rw [if_pos (Numeric.isFinite_toFloat_mul_one (Nat.pos_of_ne_zero zero))]
    split
    all_goals rfl

theorem SizeBounds.ofJson?_toJson (bounds : SizeBounds) : ofJson? bounds.toJson = some bounds := by
  simp [ofJson?, toJson, pair?, word?_ofNat]

theorem SplicePolicy.ofJson?_name (policy : SplicePolicy) :
    ofJson? (.text policy.name) = some policy := by
  cases policy <;> rfl

theorem SyntheticConfig.mixOfJson?_map {mix : PerCategory Float}
    (inverse : ∀ weight ∈ mix.toList, (real weight).float? = some weight) :
    mixOfJson? (.array (mix.toList.map real)) = some mix := by
  rw [mixOfJson?, list?_map inverse]
  rfl

theorem plain_of_float? {original : Json} {x : Float} (read : original.float? = some x)
    (members : List (String × Json)) : original ≠ .object members := by
  rintro rfl
  cases read

theorem reads_real {x : Float} (inverse : (real x).float? = some x) :
    Reads dropped (real x) float? x :=
  reads_of_plain (plain_of_float? inverse) inverse

/-- Something or nothing is read back, if null is not read as something. -/
theorem reads_nullable {read : Json → Option α} {write : α → Json} {content : Option α}
    (inverse : ∀ a ∈ content, read (write a) = some a)
    (plain : ∀ a ∈ content, ∀ members, write a ≠ .object members)
    (refuses : read .null = none) :
    Reads dropped ((content.map write).getD .null) (nullable? read) content := by
  cases content with
  | none => exact reads_of_plain nofun rfl
  | some a =>
    apply reads_of_plain (plain a rfl)
    -- which kind of value is written is not known, only that it is not null
    have read_eq : read (write a) = some a := inverse a rfl
    generalize write a = written at read_eq
    cases written with
    | null =>
      rw [refuses] at read_eq
      cases read_eq
    | _ => exact congrArg (Option.map some) read_eq

theorem reads_word (word : UInt64) : Reads dropped (.ofNat word.toNat) word? word :=
  reads_of_plain nofun (word?_ofNat word)

theorem reads_signedWord (word : Int64) : Reads dropped (.ofInt word.toInt) signedWord? word :=
  reads_of_plain nofun (signedWord?_ofInt word)

theorem reads_byte (byte : UInt8) : Reads dropped (.ofNat byte.toNat) byte? byte :=
  reads_of_plain nofun (byte?_ofNat byte)

theorem reads_mix {mix : PerCategory Float}
    (inverse : ∀ weight ∈ mix.toList, (real weight).float? = some weight) :
    Reads dropped (.array (mix.toList.map real)) SyntheticConfig.mixOfJson? mix :=
  reads_of_plain nofun (SyntheticConfig.mixOfJson?_map inverse)

theorem reads_optionalWord (content : Option UInt64) :
    Reads dropped (ofOptionalWord content) (nullable? word?) content := by
  have written : ofOptionalWord content = (content.map fun n => .ofNat n.toNat).getD .null := by
    cases content <;> rfl
  rw [written]
  exact reads_nullable (fun n _ => word?_ofNat n) (fun _ _ => nofun) rfl

theorem reads_optionalText (content : Option String) :
    Reads dropped ((content.map Json.text).getD .null) (nullable? string?) content :=
  reads_nullable (fun _ _ => rfl) (fun _ _ => nofun) rfl

theorem reads_optionalReal {content : Option Float}
    (inverse : ∀ x ∈ content, (real x).float? = some x) :
    Reads dropped ((content.map real).getD .null) (nullable? float?) content :=
  reads_nullable inverse (fun x mem => plain_of_float? (inverse x mem)) rfl

theorem SizeBounds.reads (bounds : SizeBounds) : Reads dropped bounds.toJson ofJson? bounds :=
  reads_of_plain nofun bounds.ofJson?_toJson

theorem SplicePolicy.reads (policy : SplicePolicy) :
    Reads dropped (.text policy.name) ofJson? policy :=
  reads_of_plain nofun policy.ofJson?_name

/-! ## Records -/

namespace RunMode

/-- A mode with the default grid, if its own was dropped. -/
def without (dropped : List String → Bool) : RunMode → RunMode
  | mapElites grid => mapElites (if dropped ["grid"] then defaultGrid else grid)
  | mode => mode

variable {outer : Nat}

/-- A mode is told by its name, and read from the rest. -/
theorem reads_of_name {name : String} {members : List (String × Json)} {mode : RunMode}
    (fresh : "type" ∉ members.map Prod.fst) (typed : dropped ["type"] = false)
    (room : outer + 33 < nestingLimit) (readable : isReadable 2 (.object members) = true)
    (reads : Reads dropped (.object members) (ofName? name) mode) :
    Reads dropped (.object (("type", .text name) :: members)) (ofJson? outer) mode := by
  intro value repeats varies
  obtain ⟨shuffled, rfl, ⟨twice, rfl⟩ | ⟨once, rest⟩⟩ := varies.tagged fresh typed
  · rw [ofJson?]
    split
    · next tag =>
      rw [tag] at twice
      exact (Nat.not_succ_le_self 1 twice).elim
    · rfl
  · rw [ofJson?, once]
    dsimp only
    split
    · exact reads _ _ rest
    · next unreadable =>
      cases repeats with
      | true => rfl
      | false =>
        -- what was added can be read, and so can the members, so the rest can be read as well
        refine (unreadable ?_).elim
        have some_levels := membersReadable_iff.mp (rest.isReadable rfl readable)
        refine membersReadable_iff.mpr fun member mem => ?_
        exact isReadable_mono (by omega) (some_levels member mem)

/-- Nothing can be repeated in an object without members. -/
theorem reads_of_noItems {name : String} {mode : RunMode}
    (read : ∀ rest, hasNoItems rest = true → ofName? name rest = some mode) :
    Reads dropped (.object []) (ofName? name) mode := by
  intro value repeats varies
  cases varies with
  | same plain => exact (plain _ rfl).elim
  | object held inner repeated extra varies rearranges =>
    obtain rfl : repeated = [] :=
      List.eq_nil_iff_forall_not_mem.mpr fun member mem => nomatch rearranges.known member mem
    exact read _ rfl

theorem reads_mapElites (grid : List UInt64) :
    Reads dropped (.object [("grid", .array (grid.map fun size => .ofNat size.toNat))])
      (ofName? "MapElites") ((mapElites grid).without dropped) := by
  refine reads_of_fields ["grid"] rfl (by decide) (fun _ => if_pos rfl)
    fun field inner follows => ?_
  simp only [List.forall_mem_cons] at follows
  obtain ⟨sizes, -⟩ := follows
  have read : Reads (under "grid" dropped) (.array (grid.map fun size => .ofNat size.toNat))
      (list? word?) grid :=
    reads_of_plain nofun (list?_map fun size _ => word?_ofNat size)
  have sizes := read.withDefault sizes defaultGrid
  simp only [Option.bind_eq_bind, sizes, ite_bind, ite_any_cons]
  rfl

theorem reads (mode : RunMode) (typed : dropped ["type"] = false)
    (room : outer + 33 < nestingLimit) :
    Reads dropped mode.toJson (ofJson? outer) (mode.without dropped) := by
  cases mode with
  | standard | hurdles | qualityDiversity =>
    refine reads_of_name nofun typed room rfl (reads_of_noItems fun rest none => ?_)
    rw [ofName?, if_neg (by decide), if_pos none]
    rfl
  | mapElites grid =>
    have fresh : "type" ∉ ["grid"] := by decide
    refine reads_of_name fresh typed room ?_ (reads_mapElites grid)
    rw [isReadable, membersReadable, membersReadable, Bool.and_true, isReadable, areReadable_iff]
    intro item mem
    obtain ⟨size, -, rfl⟩ := List.mem_map.mp mem
    exact isReadable_ofNat 0 size

end RunMode

/-- The settings with defaults in the place of what is dropped. -/
def MigrationConfig.without (dropped : List String → Bool) (config : MigrationConfig) :
    MigrationConfig where
  probability := if dropped ["migrate_prob"] then standard.probability else config.probability
  run := if dropped ["run_id"] then standard.run else config.run
  splice := if dropped ["splice"] then standard.splice else config.splice

theorem MigrationConfig.reads {config : MigrationConfig}
    (inverse : (real config.probability).float? = some config.probability) :
    Reads dropped (config.toJson real) ofJson? (config.without dropped) := by
  refine reads_of_fields ["migrate_prob", "run_id", "splice"] rfl (by decide) (fun _ => rfl)
    fun field inner follows => ?_
  simp only [List.forall_mem_cons] at follows
  obtain ⟨probability, run, splice, -⟩ := follows
  have probability := (reads_real inverse).withDefault probability standard.probability
  have run := (reads_signedWord config.run).withDefault run standard.run
  have splice := (SplicePolicy.reads config.splice).withDefault splice standard.splice
  simp only [Option.bind_eq_bind, probability, run, splice, ite_bind, ite_any_cons]
  rfl

/-- The settings with defaults in the place of what is dropped. -/
def EvolutionConfig.without (dropped : List String → Bool) (config : EvolutionConfig) :
    EvolutionConfig where
  populationSize :=
    if dropped ["population_size"] then standard.populationSize else config.populationSize
  tournamentSize :=
    if dropped ["tournament_size"] then standard.tournamentSize else config.tournamentSize
  progressEvery :=
    if dropped ["progress_every"] then standard.progressEvery else config.progressEvery
  mode := if dropped ["mode"] then standard.mode else config.mode.without (under "mode" dropped)
  migration :=
    if dropped ["migration"] then standard.migration
    else config.migration.without (under "migration" dropped)
  randomSeed := if dropped ["random_seed"] then standard.randomSeed else config.randomSeed

theorem EvolutionConfig.reads {config : EvolutionConfig} {outer : Nat}
    (inverse : (real config.migration.probability).float? = some config.migration.probability)
    (typed : dropped ["mode", "type"] = false) (room : outer + 34 < RunMode.nestingLimit) :
    Reads dropped (config.toJson real) (ofJson? outer) (config.without dropped) := by
  refine reads_of_fields ["population_size", "tournament_size", "progress_every", "mode",
    "migration", "random_seed"] rfl (by decide) (fun _ => rfl) fun field inner follows => ?_
  simp only [List.forall_mem_cons] at follows
  obtain ⟨population, tournament, progress, mode, migration, seed, -⟩ := follows
  have mode_room : outer + 1 + 33 < RunMode.nestingLimit := by omega
  have population := (reads_word _).withDefault population standard.populationSize
  have tournament := (reads_word _).withDefault tournament standard.tournamentSize
  have progress := (reads_word _).withDefault progress standard.progressEvery
  have mode := (config.mode.reads typed mode_room).withDefault mode standard.mode
  have migration := (MigrationConfig.reads inverse).withDefault migration standard.migration
  have seed := (reads_optionalWord _).withDefault seed standard.randomSeed
  simp only [Option.bind_eq_bind, population, tournament, progress, mode, migration, seed,
    ite_bind, ite_any_cons]
  rfl

/-- The settings with defaults in the place of what is dropped. -/
def SyntheticConfig.without (dropped : List String → Bool) (config : SyntheticConfig) :
    SyntheticConfig where
  setupSize := if dropped ["setup_size"] then standard.setupSize else config.setupSize
  predictSize := if dropped ["predict_size"] then standard.predictSize else config.predictSize
  learnSize := if dropped ["learn_size"] then standard.learnSize else config.learnSize
  addresses := if dropped ["num_addresses"] then standard.addresses else config.addresses
  targetMix := if dropped ["target_mix"] then standard.targetMix else config.targetMix

theorem SyntheticConfig.reads {config : SyntheticConfig}
    (inverse : ∀ weight ∈ config.targetMix.toList, (real weight).float? = some weight) :
    Reads dropped (config.toJson real) ofJson? (config.without dropped) := by
  refine reads_of_fields ["setup_size", "predict_size", "learn_size", "num_addresses",
    "target_mix"] rfl (by decide) (fun _ => rfl) fun field inner follows => ?_
  simp only [List.forall_mem_cons] at follows
  obtain ⟨setup, predict, learn, addresses, mix, -⟩ := follows
  have setup := (SizeBounds.reads _).withDefault setup standard.setupSize
  have predict := (SizeBounds.reads _).withDefault predict standard.predictSize
  have learn := (SizeBounds.reads _).withDefault learn standard.learnSize
  have addresses := (reads_byte _).withDefault addresses standard.addresses
  have mix := (reads_mix inverse).withDefault mix standard.targetMix
  simp only [Option.bind_eq_bind, setup, predict, learn, addresses, mix, ite_bind, ite_any_cons]
  rfl

namespace ExperimentConfig

/-- The settings with defaults in the place of what is dropped. -/
def without (dropped : List String → Bool) (config : ExperimentConfig) : ExperimentConfig where
  evolution :=
    if dropped ["evolution"] then standard.evolution
    else config.evolution.without (under "evolution" dropped)
  synthetic :=
    if dropped ["synthetic"] then standard.synthetic
    else config.synthetic.without (under "synthetic" dropped)
  database := if dropped ["database"] then standard.database else config.database
  maxTrainSteps :=
    if dropped ["max_train_steps"] then standard.maxTrainSteps else config.maxTrainSteps
  maxSeconds := if dropped ["max_seconds"] then standard.maxSeconds else config.maxSeconds

/-- Where nothing is dropped, nothing has its default. -/
theorem without_eq_self (config : ExperimentConfig) (whole : ∀ path, dropped path = false) :
    config.without dropped = config := by
  have mode : config.evolution.mode.without (under "mode" (under "evolution" dropped)) =
      config.evolution.mode := by
    cases config.evolution.mode with
    | mapElites grid => simp [RunMode.without, under, whole]
    | _ => rfl
  simp [without, EvolutionConfig.without, mode, MigrationConfig.without, SyntheticConfig.without,
    under, whole]

theorem reads {config : ExperimentConfig}
    (inverse : ∀ x ∈ config.floats, (real x).float? = some x)
    (typed : dropped ["evolution", "mode", "type"] = false) :
    Reads dropped (config.toJson real) ofJson? (config.without dropped) := by
  rw [floats, List.forall_mem_append, List.forall_mem_cons] at inverse
  obtain ⟨⟨probability, weights⟩, limit⟩ := inverse
  refine reads_of_fields ["evolution", "synthetic", "database", "max_train_steps",
    "max_seconds"] rfl (by decide) (fun _ => rfl) fun field inner follows => ?_
  simp only [List.forall_mem_cons] at follows
  obtain ⟨evolution, synthetic, database, steps, seconds, -⟩ := follows
  have room : 1 + 34 < RunMode.nestingLimit := by decide
  have evolution := (EvolutionConfig.reads probability typed room).withDefault evolution
    standard.evolution
  have synthetic := (SyntheticConfig.reads weights).withDefault synthetic standard.synthetic
  have database := (reads_optionalText _).withDefault database standard.database
  have steps := (reads_word _).withDefault steps standard.maxTrainSteps
  have limit := fun x mem => limit x (Option.mem_toList.mpr mem)
  have seconds := (reads_optionalReal limit).withDefault seconds standard.maxSeconds
  simp only [Option.bind_eq_bind, evolution, synthetic, database, steps, seconds, ite_bind,
    ite_any_cons]
  rfl

/-- What is read of a value, in its compact form and in any other text that writes it. -/
def DecodesTo (value : Json) (outcome : Option ExperimentConfig) : Prop :=
  decode? value.toText = outcome ∧ ∀ text, Json.ofText? text = some value → decode? text = outcome

theorem decodesTo_of_ofJson? {value : Json} {outcome : Option ExperimentConfig}
    (read : ofJson? value = outcome) : DecodesTo value outcome := by
  have each (text : String) (written : Json.ofText? text = some value) :
      decode? text = outcome := by
    rw [decode?, written]
    exact read
  exact ⟨each _ (ofText?_toText value), each⟩

/-- Settings that are not refused, once written, can be read from any variation of what was
written: a setting that was dropped has its default, all others are as they were, and without any
dropped the settings are read as they were. From a variation in which a key is repeated, nothing is
read. All settings may be dropped but the name of a mode; the floats have to be written in such a
way that they can be read again. -/
theorem decodes_by_fields {config : ExperimentConfig} (valid : config.validate = .ok ())
    (inverse : ∀ x ∈ config.floats, x.isFinite = true → (real x).float? = some x) :
    (∀ dropped value repeats, dropped ["evolution", "mode", "type"] = false →
      Varies dropped (config.toJson real) value repeats →
      DecodesTo value (if repeats then none else some (config.without dropped))) ∧
    ∀ value, Varies (fun _ => false) (config.toJson real) value false →
      DecodesTo value (some config) := by
  have inverse : ∀ x ∈ config.floats, (real x).float? = some x := fun x mem =>
    inverse x mem (isFinite_of_validate valid mem)
  refine ⟨fun dropped value repeats typed varies => ?_, fun value varies => ?_⟩
  · exact decodesTo_of_ofJson? (reads inverse typed value repeats varies)
  · have read := reads inverse rfl value false varies
    rw [without_eq_self config fun _ => rfl] at read
    exact decodesTo_of_ofJson? read

/-- The standard experiment with an archive of fifteen cells and a minute's time. -/
def archiveForAMinute : ExperimentConfig :=
  { standard with
    evolution := { EvolutionConfig.standard with mode := .mapElites [5, 3] }
    maxSeconds := some 60 }

/-- Everything is dropped but the mode, and the grid of that, too. -/
def allButMode (path : List String) : Bool :=
  !(path == ["evolution"] || path == ["evolution", "mode"] || path == ["evolution", "mode", "type"])

/-- A note is put in front of what is left. -/
theorem decodes_by_fields_of_note :
    DecodesTo (.object [("note", .array [.null]),
        ("evolution", .object [("mode", .object [("type", .text "MapElites")])])])
      (some { standard with evolution :=
        { EvolutionConfig.standard with mode := .mapElites RunMode.defaultGrid } }) := by
  have valid : archiveForAMinute.validate = .ok () := rfl
  have inverse : ∀ x ∈ archiveForAMinute.floats, x.isFinite = true →
      (Json.ofFloat x).float? = some x := by decide +kernel
  have mode : Varies (under "mode" (under "evolution" allButMode))
      (RunMode.mapElites [5, 3]).toJson (.object [("type", .text "MapElites")]) false := by
    refine .object (fun _ => .text "MapElites") (fun _ => false) [] [] ?_
      ⟨nofun, nofun, nofun, .refl _⟩
    simp only [List.forall_mem_cons]
    exact ⟨fun _ => .same nofun, fun kept => absurd kept (by decide), nofun⟩
  have evolution : Varies (under "evolution" allButMode)
      (archiveForAMinute.evolution.toJson Json.ofFloat)
      (.object [("mode", .object [("type", .text "MapElites")])]) false := by
    refine .object (fun _ => .object [("type", .text "MapElites")]) (fun _ => false) [] [] ?_
      ⟨nofun, nofun, nofun, .refl _⟩
    simp only [List.forall_mem_cons]
    refine ⟨?_, ?_, ?_, fun _ => mode, ?_, ?_, nofun⟩
    all_goals exact fun kept => absurd kept (by decide)
  have varies : Varies allButMode (archiveForAMinute.toJson Json.ofFloat)
      (.object [("note", .array [.null]),
        ("evolution", .object [("mode", .object [("type", .text "MapElites")])])]) false := by
    refine .object (fun _ => .object [("mode", .object [("type", .text "MapElites")])])
      (fun _ => false) [] [("note", .array [.null])] ?_
      ⟨nofun, List.forall_mem_singleton.mpr (by decide), List.forall_mem_singleton.mpr rfl,
        .swap _ _ _⟩
    simp only [List.forall_mem_cons]
    refine ⟨fun _ => evolution, ?_, ?_, ?_, ?_, nofun⟩
    all_goals exact fun kept => absurd kept (by decide)
  exact (decodes_by_fields valid inverse).1 allButMode _ false (by decide) varies

end ExperimentConfig

end EvoSearch
