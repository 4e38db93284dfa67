/-
This file models the second-sight history: four generations of bits that rotate with
time. An observation sets the bits of its key in the current generation, and a key was
seen when one generation has all its bits. Rotation is lazy: a call first turns by the
whole periods that have passed, at most four times, and keeps the rest of the time.

The argument counts generations from the current one back. The generation that is some
steps behind holds the bits of the observations made that many periods earlier, where
periods are counted from the construction. A turn moves every generation one step back
and clears the one that becomes current; more than four turns clear them all, whichever
becomes current. So an observation is there for three whole periods and gone after four.
-/

import Unbounded.Transition

namespace Unbounded.Alloc

open List Transition

/-! ### The history -/

/-- Bounded rotating Bloom history. Every generation has the same number of words, and there is at
least one; the period is a positive number of nanoseconds that fits a word. -/
structure SecondSight (Key : Type*) (words : Nat) where
  hash : Key → BitVec 64
  pages : Fin 4 → Fin words → BitVec 64
  occupancy : Fin 4 → Nat
  current : Fin 4
  rotated : Nat
  period : Nat
  words_pos : 0 < words
  period_pos : 0 < period
  period_word : period < 2 ^ 64

namespace SecondSight

variable {Key : Type*} {words : Nat}

/-- Construct four generations within the byte budget, starting at `now`. -/
def withHasher (bytes period now : Nat) (hash : Key → BitVec 64) :
    Option (SecondSight Key (bytes / (4 * 8))) :=
  if valid : bytes / (4 * 8) ≠ 0 ∧ period ≠ 0 ∧ ¬ period > 2 ^ 64 - 1 then
    some {
      hash
      pages := fun _ _ => 0
      occupancy := fun _ => 0
      current := 0
      rotated := now
      period
      words_pos := Nat.pos_of_ne_zero valid.1
      period_pos := Nat.pos_of_ne_zero valid.2.1
      period_word := by have := valid.2.2; omega }
  else none

variable (sight : SecondSight Key words)

/-- Enter the next generation, cleared. -/
def advance : SecondSight Key words :=
  { sight with
    current := sight.current + 1
    pages := Function.update sight.pages (sight.current + 1) fun _ => 0
    occupancy := Function.update sight.occupancy (sight.current + 1) 0 }

/-- Expire whole generations while preserving the fractional period. -/
def rotate (now : Nat) : SecondSight Key words :=
  let elapsed := now - sight.rotated
  let periods := elapsed / sight.period
  if periods = 0 then sight
  else { advance^[min periods 4] sight with rotated := now - elapsed % sight.period % 2 ^ 64 }

/-- The word and the bit in it of the `i`th probe of a key. -/
def probe (key : Key) (i : Fin 4) : Fin words × Fin 64 :=
  let hash := sight.hash key
  let step := hash.rotateLeft 29 ||| 1
  let bit := (hash + step * BitVec.ofNat 64 i).toNat % (words * 64)
  have inside : bit < 64 * words := Nat.mul_comm words 64 ▸
    Nat.mod_lt _ (Nat.mul_pos sight.words_pos (by decide))
  (⟨bit / 64, Nat.div_lt_of_lt_mul inside⟩, ⟨bit % 64, Nat.mod_lt _ (by decide)⟩)

/-- The mask of one bit of a word. -/
def mask (bit : Fin 64) : BitVec 64 := 1#64 <<< (bit : Nat)

/-- Whether a generation has a bit. -/
def hasBit (generation : Fin 4) (at_ : Fin words × Fin 64) : Bool :=
  sight.pages generation at_.1 &&& mask at_.2 ≠ 0

/-- Whether one generation has all the bits of a key. -/
def seen (key : Key) : Bool :=
  decide (∃ generation, ∀ i, sight.hasBit generation (sight.probe key i) = true)

/-- Set a bit of the current generation and count it. -/
def mark (at_ : Fin words × Fin 64) : SecondSight Key words :=
  { sight with
    pages := Function.update sight.pages sight.current
      (Function.update (sight.pages sight.current) at_.1
        (sight.pages sight.current at_.1 ||| mask at_.2))
    occupancy := Function.update sight.occupancy sight.current
      (sight.occupancy sight.current + 1) }

/-- Set a bit of the current generation, unless it is set. -/
def setBit (at_ : Fin words × Fin 64) : SecondSight Key words :=
  if sight.pages sight.current at_.1 &&& mask at_.2 = 0 then sight.mark at_ else sight

/-- Check prior history before inserting this observation. -/
def observe (key : Key) (now : Nat) : Bool × SecondSight Key words :=
  let rotated := sight.rotate now
  let bits := (List.finRange 4).map (rotated.probe key)
  (rotated.seen key, bits.foldl setBit rotated)

/-- Return occupied and total bits after applying elapsed rotations. -/
def occupied (now : Nat) : (Nat × Nat) × SecondSight Key words :=
  let rotated := sight.rotate now
  ((∑ generation, rotated.occupancy generation, words * 64 * 4), rotated)

/-! ### Bits -/

theorem and_mask_ne_zero (word : BitVec 64) (bit : Fin 64) :
    word &&& mask bit ≠ 0 ↔ word.getLsbD bit = true := by
  rw [mask, ← BitVec.twoPow_eq, BitVec.and_twoPow]
  cases word.getLsbD bit with
  | false => simp
  | true =>
    refine iff_of_true (fun zero => ?_) rfl
    have bits := congrArg (fun word : BitVec 64 => word.getLsbD bit) zero
    simp at bits

theorem getLsbD_or_mask (word : BitVec 64) (bit other : Fin 64) :
    (word ||| mask bit).getLsbD other = (word.getLsbD other || decide (other = bit)) := by
  rw [mask, ← BitVec.twoPow_eq]
  simp [Fin.ext_iff, eq_comm]

/-- The set bits of a generation. -/
def setBits (generation : Fin 4) : Finset (Fin words × Fin 64) :=
  Finset.univ.filter fun at_ => (sight.pages generation at_.1).getLsbD at_.2 = true

variable {sight} {generation : Fin 4} {at_ : Fin words × Fin 64}

theorem mem_setBits :
    at_ ∈ sight.setBits generation ↔ (sight.pages generation at_.1).getLsbD at_.2 = true := by
  rw [setBits, Finset.mem_filter]
  exact and_iff_right (Finset.mem_univ _)

theorem hasBit_iff : sight.hasBit generation at_ = true ↔ at_ ∈ sight.setBits generation := by
  rw [hasBit, decide_eq_true_iff, and_mask_ne_zero, mem_setBits]

/-- What marking some bits of the current generation does. -/
structure Marks (sight : SecondSight Key words) (marked : List (Fin words × Fin 64))
    (next : SecondSight Key words) : Prop where
  probe : next.probe = sight.probe
  period : next.period = sight.period
  rotated : next.rotated = sight.rotated
  current : next.current = sight.current
  bits : ∀ generation at_, at_ ∈ next.setBits generation ↔
    at_ ∈ sight.setBits generation ∨ generation = sight.current ∧ at_ ∈ marked
  counted : (∀ generation, sight.occupancy generation = (sight.setBits generation).card) →
    ∀ generation, next.occupancy generation = (next.setBits generation).card

theorem mem_mark {other : Fin words × Fin 64} : other ∈ (sight.mark at_).setBits generation ↔
      other ∈ sight.setBits generation ∨ generation = sight.current ∧ other = at_ := by
  rw [mem_setBits, mem_setBits, mark]
  by_cases here : generation = sight.current
  · subst here
    dsimp only
    rw [Function.update_self, Function.update_apply]
    split
    · rename_i word
      rw [getLsbD_or_mask, Prod.ext_iff]
      simp [word]
    · rename_i word
      simp only [true_and]
      refine (or_iff_left fun same => word ?_).symm
      rw [same]
  · simp [here]

theorem marks_setBit (sight : SecondSight Key words) (at_ : Fin words × Fin 64) :
    sight.Marks [at_] (sight.setBit at_) := by
  unfold setBit
  split
  · rename_i unset
    have fresh : at_ ∉ sight.setBits sight.current := by
      rw [mem_setBits, ← and_mask_ne_zero]
      exact not_not.mpr unset
    refine ⟨rfl, rfl, rfl, rfl, fun _ _ => by rw [mem_mark, mem_singleton],
      fun counted generation => ?_⟩
    by_cases here : generation = sight.current
    · subst here
      have grown : (sight.mark at_).setBits sight.current =
          insert at_ (sight.setBits sight.current) := by
        ext other
        rw [mem_mark, or_comm]
        simp
      rw [grown, Finset.card_insert_of_notMem fresh, ← counted]
      exact Function.update_self ..
    · have same : (sight.mark at_).setBits generation = sight.setBits generation := by
        ext other
        rw [mem_mark]
        simp [here]
      rw [same, ← counted]
      exact Function.update_of_ne here ..
  · rename_i isSet
    have there : at_ ∈ sight.setBits sight.current := by
      rw [mem_setBits, ← and_mask_ne_zero]
      exact isSet
    refine ⟨rfl, rfl, rfl, rfl, fun generation other => ?_, id⟩
    refine (or_iff_left_of_imp ?_).symm
    rintro ⟨rfl, member⟩
    exact mem_singleton.mp member ▸ there

theorem Marks.append {next last : SecondSight Key words} {first second : List (Fin words × Fin 64)}
    (before : sight.Marks first next) (after : next.Marks second last) :
    sight.Marks (first ++ second) last where
  probe := after.probe.trans before.probe
  period := after.period.trans before.period
  rotated := after.rotated.trans before.rotated
  current := after.current.trans before.current
  bits generation at_ := by
    rw [after.bits, before.bits, before.current, mem_append]
    tauto
  counted counted := after.counted (before.counted counted)

theorem marks_foldl (sight : SecondSight Key words) (marked : List (Fin words × Fin 64)) :
    sight.Marks marked (marked.foldl setBit sight) := by
  induction marked generalizing sight with
  | nil => exact ⟨rfl, rfl, rfl, rfl, fun _ _ => by simp, id⟩
  | cons at_ _ ih => exact (sight.marks_setBit at_).append (ih (sight.setBit at_))

/-! ### Rotation -/

/-- The generations and the observations: counted back from the current one, a generation has the
bits of the observations made that many periods before the present one. -/
structure Tracks (probe : Key → Fin 4 → Fin words × Fin 64) (period : Nat)
    (periodOf : Nat → Nat) (history : List (Key × Nat)) (present : Nat)
    (sight : SecondSight Key words) : Prop where
  probes : sight.probe = probe
  period : sight.period = period
  past : ∀ observation ∈ history, periodOf observation.2 ≤ present
  bits : ∀ (back : Fin 4) at_, at_ ∈ sight.setBits (sight.current - back) ↔
    ∃ observation ∈ history, periodOf observation.2 + back = present ∧
      ∃ i, at_ = probe observation.1 i
  counted : ∀ generation, sight.occupancy generation = (sight.setBits generation).card

variable {probe : Key → Fin 4 → Fin words × Fin 64} {period present : Nat} {periodOf : Nat → Nat}
  {history : List (Key × Nat)}

theorem setBits_advance (sight : SecondSight Key words) (generation : Fin 4) :
    sight.advance.setBits generation =
      if generation = sight.current + 1 then ∅ else sight.setBits generation := by
  ext at_
  rw [mem_setBits, advance]
  dsimp only
  rw [Function.update_apply]
  split
  · simp
  · exact mem_setBits.symm

/-- Behind the new generation the others stand one step further back. -/
theorem step_back : ∀ current back : Fin 4, back ≠ 0 →
    current + 1 - back ≠ current + 1 ∧ current + 1 - back = current - (back - 1) ∧
      (back - 1).val + 1 = back.val := by
  decide

theorem turn_back : ∀ current generation : Fin 4,
    current - (current - generation) = generation := by decide

theorem stays : ∀ current back : Fin 4, current - back = current ↔ back = 0 := by decide

section

variable (tracks : Tracks probe period periodOf history present sight)
include tracks

theorem Tracks.advance : Tracks probe period periodOf history (present + 1) sight.advance where
  __ := tracks
  past observation member := Nat.le_succ_of_le (tracks.past observation member)
  bits back at_ := by
    show at_ ∈ sight.advance.setBits (sight.current + 1 - back) ↔ _
    rw [setBits_advance]
    by_cases first : back = 0
    · -- The generation that becomes current is empty, and nothing was observed in its period.
      subst first
      have here : sight.current + 1 - 0 = sight.current + 1 := (stays _ _).mpr rfl
      rw [here, if_pos rfl]
      refine iff_of_false (Finset.notMem_empty _) ?_
      rintro ⟨observation, member, _, -⟩
      have := tracks.past observation member
      omega
    · obtain ⟨other, moved, _⟩ := step_back sight.current back first
      rw [if_neg other, moved, tracks.bits]
      refine exists_congr fun observation => and_congr_right fun _ => and_congr_left fun _ => ?_
      omega
  counted generation := by
    rw [setBits_advance, SecondSight.advance]
    dsimp only
    rw [Function.update_apply]
    split
    · rfl
    · exact tracks.counted generation

theorem Tracks.turns (count : Nat) :
    Tracks probe period periodOf history (present + count) (SecondSight.advance^[count] sight) := by
  induction count with
  | zero => exact tracks
  | succ _ ih =>
    rw [Function.iterate_succ_apply']
    exact ih.advance

/-- Four turns are as good as any greater number of them: every generation is empty. -/
theorem Tracks.skips (count : Nat) : Tracks probe period periodOf history (present + count)
      (SecondSight.advance^[min count 4] sight) := by
  rcases Nat.le_total count 4 with few | many
  · rw [Nat.min_eq_left few]
    exact tracks.turns count
  · rw [Nat.min_eq_right many]
    have turned := tracks.turns 4
    refine { turned with
      past := fun observation member => Nat.le_add_right_of_le (tracks.past observation member)
      bits := fun back at_ => ?_ }
    rw [turned.bits]
    refine exists_congr fun observation => and_congr_right fun member =>
      and_congr_left fun _ => iff_of_false ?_ ?_
    · have := tracks.past observation member
      omega
    · have := tracks.past observation member
      omega

end

/-- A history that started at some time: it was last rotated at the beginning of the present
period. -/
structure Keeps (probe : Key → Fin 4 → Fin words × Fin 64) (period start : Nat)
    (history : List (Key × Nat)) (clock : Nat) (sight : SecondSight Key words) : Prop where
  begun : start ≤ clock
  since : ∀ observation ∈ history, start ≤ observation.2
  phase : sight.rotated = start + (clock - start) / period * period
  tracks : Tracks probe period (fun time => (time - start) / period) history
    ((clock - start) / period) sight

variable {start clock now : Nat}

section

variable (keeps : Keeps probe period start history clock sight) (later : clock ≤ now)

include keeps later

/-- Rotating brings the history to a later time. -/
theorem Keeps.rotate : Keeps probe period start history now (sight.rotate now) := by
  obtain ⟨_, since, phase, tracks⟩ := keeps
  have positive : 0 < period := tracks.period ▸ sight.period_pos
  have word : period < 2 ^ 64 := tracks.period ▸ sight.period_word
  have ordered : (clock - start) / period ≤ (now - start) / period :=
    Nat.div_le_div_right (by omega)
  have elapsed : now - sight.rotated = now - start - period * ((clock - start) / period) := by
    rw [Nat.mul_comm]
    omega
  have periods : (now - sight.rotated) / sight.period =
      (now - start) / period - (clock - start) / period := by
    rw [elapsed, tracks.period, Nat.sub_mul_div]
  unfold SecondSight.rotate
  dsimp only
  split
  · have same : (now - start) / period = (clock - start) / period := by omega
    exact ⟨by omega, since, same ▸ phase, same ▸ tracks⟩
  · have turned := tracks.skips ((now - sight.rotated) / sight.period)
    have reached : (clock - start) / period + (now - sight.rotated) / sight.period =
        (now - start) / period := by omega
    rw [reached] at turned
    refine ⟨by omega, since, ?_, { turned with }⟩
    show now - (now - sight.rotated) % sight.period % 2 ^ 64 = _
    have rest : (now - sight.rotated) % sight.period = (now - start) % period := by
      have whole : period * ((clock - start) / period) ≤ now - start :=
        Nat.le_trans (Nat.mul_div_le _ _) (by omega)
      rw [elapsed, tracks.period, Nat.sub_mul_mod whole]
    rw [rest, Nat.mod_eq_of_lt (Nat.lt_trans (Nat.mod_lt _ positive) word)]
    have split := Nat.div_add_mod (now - start) period
    rw [Nat.mul_comm]
    omega

theorem Keeps.observe (key : Key) :
    Keeps probe period start (history ++ [(key, now)]) now (sight.observe key now).2 := by
  obtain ⟨begun, since, phase, tracks⟩ := keeps.rotate later
  have marks : (sight.rotate now).Marks ((finRange 4).map ((sight.rotate now).probe key))
      (sight.observe key now).2 := (sight.rotate now).marks_foldl _
  refine ⟨begun, forall_mem_append.mpr ⟨since, forall_mem_singleton.mpr begun⟩,
    marks.rotated.trans phase, marks.probe.trans tracks.probes, marks.period.trans tracks.period,
    forall_mem_append.mpr ⟨tracks.past, forall_mem_singleton.mpr (Nat.le_refl _)⟩,
    fun back at_ => ?_, marks.counted tracks.counted⟩
  have present : (sight.rotate now).current - back = (sight.rotate now).current ↔
      (now - start) / period + back.val = (now - start) / period := by
    omega
  have probed : at_ ∈ (finRange 4).map ((sight.rotate now).probe key) ↔
      ∃ i, at_ = probe key i := by
    rw [tracks.probes, mem_map]
    exact exists_congr fun i => ⟨fun both => both.2.symm, fun same => ⟨mem_finRange i, same.symm⟩⟩
  rw [marks.current, marks.bits, tracks.bits, present, probed]
  simp only [mem_append, mem_singleton, or_and_right, exists_or, exists_eq_left]

end

/-! ### Calls -/

/-- A call on the history. -/
inductive Call (Key : Type*)
  | observe (key : Key)
  | occupancy

/-- What a call returns. -/
inductive Reply
  | seen (before : Bool)
  | bits (used total : Nat)

/-- Perform a call at a time. -/
def perform (sight : SecondSight Key words) (now : Nat) :
    Call Key → Reply × SecondSight Key words
  | .observe key => (.seen (sight.observe key now).1, (sight.observe key now).2)
  | .occupancy => (.bits (sight.occupied now).1.1 (sight.occupied now).1.2, (sight.occupied now).2)

/-- A call at a time that is not before the last one, and what it returned. -/
def Performs (state : Nat × SecondSight Key words) (label : Call Key × Nat × Reply)
    (next : Nat × SecondSight Key words) : Prop :=
  state.1 ≤ label.2.1 ∧ next = (label.2.1, (state.2.perform label.2.1 label.1).2) ∧
    label.2.2 = (state.2.perform label.2.1 label.1).1

/-- The observations among some calls, with their times. -/
def observations (labels : List (Call Key × Nat × Reply)) : List (Key × Nat) :=
  labels.filterMap fun label =>
    match label.1 with
    | .observe key => some (key, label.2.1)
    | .occupancy => none

variable {labels : List (Call Key × Nat × Reply)}

theorem mem_observations {key : Key} {time : Nat} :
    (key, time) ∈ observations labels ↔ ∃ reply, (.observe key, time, reply) ∈ labels := by
  rw [observations, mem_filterMap]
  constructor
  · rintro ⟨⟨call, _, reply⟩, member, same⟩
    cases call with
    | observe =>
      cases same
      exact ⟨reply, member⟩
    | occupancy => cases same
  · rintro ⟨_, member⟩
    exact ⟨_, member, rfl⟩

variable {hash : Key → BitVec 64}

section

variable {bytes : Nat} {sight : SecondSight Key (bytes / (4 * 8)) }
  (created : withHasher bytes period start hash = some sight)

include created

theorem keeps_start : Keeps sight.probe period start [] start sight := by
  unfold withHasher at created
  split at created
  · cases created
    refine ⟨Nat.le_refl _, nofun, by simp, rfl, rfl,
      nofun, fun back at_ => ?_, fun generation => ?_⟩
    · refine iff_of_false ?_ fun ⟨_, absent, _⟩ => nomatch absent
      rw [mem_setBits]
      simp
    · refine (Finset.card_eq_zero.mpr ?_).symm
      ext at_
      simp [mem_setBits]
  · cases created

theorem keeps_run {last : Nat × SecondSight Key (bytes / (4 * 8)) }
    (run : Run Performs (start, sight) labels last) :
    Keeps sight.probe period start (observations labels) last.1 last.2 := by
  refine run.history (fun labels (state : Nat × SecondSight Key (bytes / (4 * 8))) =>
    Keeps sight.probe period start (observations labels) state.1 state.2) ?_ (keeps_start created)
  rintro labels ⟨_, _⟩ ⟨call, _⟩ _ keeps ⟨later, rfl, -⟩
  rw [observations, filterMap_append]
  cases call with
  | observe key => exact keeps.observe later key
  | occupancy =>
    show Keeps _ _ _ (observations labels ++ []) _ _
    rw [append_nil]
    exact keeps.rotate later

end

/-! ### The window -/

/-- Whether a call observed, `back` periods before that of a time and less than four periods ago, a
key with a probe at a bit. -/
def Sets (probe : Key → Fin 4 → Fin words × Fin 64) (period start : Nat)
    (labels : List (Call Key × Nat × Reply)) (now : Nat) (back : Fin 4)
    (at_ : Fin words × Fin 64) : Prop :=
  ∃ key time reply, (.observe key, time, reply) ∈ labels ∧
    (time - start) / period + back = (now - start) / period ∧ now < time + 4 * period ∧
      ∃ i, at_ = probe key i

section

variable (keeps : Keeps probe period start (observations labels) clock sight)
include keeps

theorem Keeps.bits (back : Fin 4) (at_ : Fin words × Fin 64) :
    at_ ∈ sight.setBits (sight.current - back) ↔ Sets probe period start labels clock back at_ := by
  rw [keeps.tracks.bits]
  constructor
  · rintro ⟨⟨key, time⟩, member, same, i, rfl⟩
    obtain ⟨reply, observed⟩ := mem_observations.mp member
    refine ⟨key, time, reply, observed, same, ?_, i, rfl⟩
    have positive : 0 < period := keeps.tracks.period ▸ sight.period_pos
    change (time - start) / period + back = _ at same
    have recent : (clock - start) / period < (time - start) / period + 4 := by omega
    rw [← Nat.add_mul_div_right _ _ positive] at recent
    have := Nat.lt_of_div_lt_div recent
    have := keeps.since (key, time) member
    omega
  · rintro ⟨key, time, reply, observed, same, -, i, rfl⟩
    exact ⟨(key, time), mem_observations.mpr ⟨reply, observed⟩, same, i, rfl⟩

/-- A key is seen when one generation's observations cover its probes. -/
theorem Keeps.seen_iff {key : Key} : sight.seen key = true ↔
    ∃ back, ∀ i, Sets probe period start labels clock back (probe key i) := by
  rw [seen, decide_eq_true_iff]
  simp only [hasBit_iff, keeps.tracks.probes]
  constructor
  · rintro ⟨generation, all⟩
    refine ⟨sight.current - generation, fun i => (keeps.bits _ _).mp ?_⟩
    rw [turn_back]
    exact all i
  · rintro ⟨back, all⟩
    exact ⟨sight.current - back, fun i => (keeps.bits back _).mpr (all i)⟩

/-- A key that was observed within three periods is seen: its own observation covers its probes. -/
theorem Keeps.seen {key : Key} {time : Nat} {reply : Reply}
    (observed : (.observe key, time, reply) ∈ labels) (within : clock ≤ time + 3 * period) :
    sight.seen key = true := by
  have positive : 0 < period := keeps.tracks.period ▸ sight.period_pos
  have past : (time - start) / period ≤ (clock - start) / period :=
    keeps.tracks.past (key, time) (mem_observations.mpr ⟨reply, observed⟩)
  have recent : (clock - start) / period ≤ (time - start) / period + 3 := by
    rw [← Nat.add_mul_div_right _ _ positive]
    exact Nat.div_le_div_right (by omega)
  refine keeps.seen_iff.mpr ⟨⟨(clock - start) / period - (time - start) / period, by omega⟩,
    fun i => ⟨key, time, reply, observed, ?_, by omega, i, rfl⟩⟩
  show (time - start) / period + ((clock - start) / period - (time - start) / period) = _
  omega

theorem Keeps.occupancy :
    ∑ generation, sight.occupancy generation = ∑ generation, (sight.setBits generation).card :=
  Finset.sum_congr rfl fun generation _ => keeps.tracks.counted generation

end

/-- With any hasher and after any calls at times that do not go back: a key observed at most three
periods ago is seen; the generation so many steps behind the current one has exactly the bits of
the observations made so many periods before, all less than four periods old; an observation
answers true exactly when those of one generation cover the probes of its key; and the occupancy is
the number of set bits, also when it is asked for. -/
theorem second_sight_window {bytes : Nat} {hash : Key → BitVec 64}
    {sight : SecondSight Key (bytes / (4 * 8))}
    (created : withHasher bytes period start hash = some sight)
    {labels : List (Call Key × Nat × Reply)} {last : Nat × SecondSight Key (bytes / (4 * 8))}
    (run : Run Performs (start, sight) labels last) :
    (∀ key now time reply, last.1 ≤ now → (.observe key, time, reply) ∈ labels →
      time ≤ now → now ≤ time + 3 * period → (last.2.observe key now).1 = true) ∧
    (∀ (back : Fin 4) (word : Fin (bytes / (4 * 8))) (bit : Fin 64),
      (last.2.pages (last.2.current - back) word).getLsbD bit = true ↔
        Sets last.2.probe period start labels last.1 back (word, bit)) ∧
    (∀ key now, last.1 ≤ now → ((last.2.observe key now).1 = true ↔
      ∃ back, ∀ i, Sets last.2.probe period start labels now back (last.2.probe key i))) ∧
    (∑ generation, last.2.occupancy generation = ∑ generation, (last.2.setBits generation).card) ∧
    ∀ now, last.1 ≤ now → (last.2.occupied now).1 =
      (∑ generation, ((last.2.occupied now).2.setBits generation).card,
        bytes / (4 * 8) * 64 * 4) := by
  have keeps := keeps_run created run
  refine ⟨fun key now time reply later observed _ within => ?_, fun back word bit => ?_,
    fun key now later => ?_, keeps.occupancy, fun now later => ?_⟩
  · exact (keeps.rotate later).seen observed within
  · rw [keeps.tracks.probes, ← keeps.bits, mem_setBits]
  · rw [keeps.tracks.probes]
    exact (keeps.rotate later).seen_iff
  · exact Prod.ext (keeps.rotate later).occupancy rfl

/-- One key observed at 5 with a period of 10: seen at 35, at the end of its window, and forgotten
at 45, when its generation has expired. -/
theorem second_sight_window_repeated :
    ∃ (sight : SecondSight Nat (32 / (4 * 8))) (reply : Reply)
      (last : Nat × SecondSight Nat (32 / (4 * 8))),
      withHasher 32 10 0 (BitVec.ofNat 64) = some sight ∧
      Run Performs (0, sight) [(.observe 7, 5, reply)] last ∧
      (last.2.observe 7 35).1 = true ∧ (last.2.observe 7 45).1 = false := by
  obtain ⟨sight, created⟩ : ∃ sight : SecondSight Nat (32 / (4 * 8)),
      withHasher 32 10 0 (BitVec.ofNat 64) = some sight := ⟨_, rfl⟩
  have run : Run Performs (0, sight)
      [(.observe 7, 5, (sight.perform 5 (.observe 7)).1)]
      (5, (sight.perform 5 (.observe 7)).2) := .single ⟨Nat.zero_le 5, rfl, rfl⟩
  obtain ⟨window, -, answer, -⟩ := second_sight_window created run
  refine ⟨sight, _, _, created, run, window 7 35 5 _ (show 5 ≤ 35 by decide) mem_cons_self
    (by decide) (by decide), Bool.eq_false_iff.mpr fun seen => ?_⟩
  obtain ⟨_, covers⟩ := (answer 7 45 (show 5 ≤ 45 by decide)).mp seen
  obtain ⟨_, _, _, observed, -, young, -⟩ := covers 0
  cases mem_singleton.mp observed
  exact absurd young (by decide)

end SecondSight

end Unbounded.Alloc
