import Pspin.Clocked.Flow
import Mathlib.Data.List.Intervals
import Mathlib.Data.List.Nodup
import Mathlib.Data.Nat.ModEq
import Mathlib.Tactic.Ring

/-! # Bursts

A burst moves bytes that follow one another in beats of one bus word.  The first word may begin with
lanes that carry none of them and the last one may end with such lanes, so a burst is told by the lane
it starts on, the lane it ends before and the number of its last beat.  What is left of a queue of
bursts shrinks by a beat at a time.
-/

namespace Pspin.Clocked

/-! ## The lanes of a beat -/

/-- A lane carries a byte: not before `offset` in the first beat, nor from `tailer` on in the last
    one, unless that beat is full. -/
def beatMask (offset tailer : Nat) (first last : Bool) (lane : Nat) : Bool :=
  (!first || decide (offset ≤ lane)) && (!(last && decide (tailer ≠ 0)) || decide (lane < tailer))

/-- The lanes that carry bytes, lowest first. -/
def beatLanes (width offset tailer : Nat) (first last : Bool) : List Nat :=
  (List.range width).filter (beatMask offset tailer first last)

/-- The bytes of beat `beat` of a burst with last beat `len`, counted from the first lane of the
    first beat. -/
def beatBytes (width offset tailer len beat : Nat) : List Nat :=
  (beatLanes width offset tailer (beat == 0) (beat == len)).map (beat * width + ·)

section Lanes

variable {width offset tailer count len beat lane : Nat} {first last : Bool}

theorem mem_beatLanes : lane ∈ beatLanes width offset tailer first last ↔
    lane < width ∧ beatMask offset tailer first last lane = true := by
  rw [beatLanes, List.mem_filter, List.mem_range]

theorem nodup_beatLanes : (beatLanes width offset tailer first last).Nodup :=
  List.nodup_range.filter _

/-- The last beat of a burst of `count` bytes. -/
def lastBeat (width offset count : Nat) : Nat := (offset + count - 1) / width

variable (offset) in
/-- The last beat holds the last byte. -/
theorem lastBeat_spec (positive : 0 < width) (some : 0 < count) :
    lastBeat width offset count * width < offset + count ∧
      offset + count ≤ (lastBeat width offset count + 1) * width := by
  have split := Nat.div_add_mod (offset + count - 1) width
  have rest := Nat.mod_lt (offset + count - 1) positive
  rw [lastBeat, Nat.succ_mul, Nat.mul_comm]
  omega

variable (offset) in
/-- What the last beat of a burst holds: it is full, or its end is the remainder. -/
theorem tailer_cases (positive : 0 < width) (some : 0 < count) :
    ((offset + count) % width = 0 ∧ offset + count = (lastBeat width offset count + 1) * width) ∨
      (offset + count) % width = offset + count - lastBeat width offset count * width := by
  have bounds := lastBeat_spec offset positive some
  rcases Nat.eq_or_lt_of_le bounds.2 with full | less
  · exact .inl ⟨by rw [full, Nat.mul_mod_left], full⟩
  · right
    have split : offset + count = lastBeat width offset count * width +
        (offset + count - lastBeat width offset count * width) := by omega
    rw [Nat.succ_mul] at less
    rw [split, Nat.add_comm, Nat.add_mul_mod_self_right, Nat.add_sub_cancel,
      Nat.mod_eq_of_lt (by omega)]

/-- The masks of a burst let exactly its own bytes through. -/
theorem beatMask_eq (positive : 0 < width) (inside : offset < width) (some : 0 < count)
    (before : beat ≤ lastBeat width offset count) (below : lane < width) :
    beatMask offset ((offset + count) % width) (beat == 0) (beat == lastBeat width offset count) lane =
      (decide (offset ≤ beat * width + lane) && decide (beat * width + lane < offset + count)) := by
  have bounds := lastBeat_spec offset positive some
  have firstLane : (!(beat == 0) || decide (offset ≤ lane)) = decide (offset ≤ beat * width + lane) := by
    cases beat with
    | zero => simp
    | succ beat =>
      have word : width ≤ (beat + 1) * width := Nat.le_mul_of_pos_left width (Nat.succ_pos beat)
      have later : offset ≤ (beat + 1) * width + lane := by omega
      simp [later]
  have lastLane : (!((beat == lastBeat width offset count) && decide ((offset + count) % width ≠ 0)) ||
      decide (lane < (offset + count) % width)) = decide (beat * width + lane < offset + count) := by
    by_cases ends : beat = lastBeat width offset count
    · subst ends
      rw [beq_self_eq_true, Bool.true_and]
      rcases tailer_cases offset positive some with ⟨zero, full⟩ | part
      · have here : lastBeat width offset count * width + lane < offset + count := by
          rw [full, Nat.succ_mul]
          omega
        simp [zero, here]
      · have someLeft : offset + count - lastBeat width offset count * width ≠ 0 := by omega
        have same : lane < offset + count - lastBeat width offset count * width ↔
            lastBeat width offset count * width + lane < offset + count := by omega
        simp [part, someLeft, same]
    · have more : (beat + 1) * width ≤ lastBeat width offset count * width :=
        Nat.mul_le_mul_right width (by omega)
      rw [Nat.succ_mul] at more
      have here : beat * width + lane < offset + count := by omega
      simp [ends, here]
  rw [beatMask, firstLane, lastLane]

theorem beatBytes_eq (positive : 0 < width) (inside : offset < width) (some : 0 < count)
    (before : beat ≤ lastBeat width offset count) :
    beatBytes width offset ((offset + count) % width) (lastBeat width offset count) beat =
      List.Ico (max offset (beat * width)) (min (offset + count) ((beat + 1) * width)) := by
  -- the lanes as the bytes of the word, of which the mask selects those of the burst
  have selected : beatBytes width offset ((offset + count) % width) (lastBeat width offset count) beat =
      (List.Ico (beat * width) (beat * width + width)).filter fun byte =>
        decide (offset ≤ byte) && decide (byte < offset + count) := by
    have word : List.Ico (beat * width) (beat * width + width) =
        (List.range width).map (beat * width + ·) := by
      rw [← List.Ico.zero_bot, List.Ico.map_add, Nat.zero_add, Nat.add_comm width]
    rw [word, List.filter_map, beatBytes, beatLanes]
    refine congrArg (List.map _) (List.filter_congr fun lane member => ?_)
    exact beatMask_eq positive inside some before (List.mem_range.mp member)
  rw [selected, ← List.filter_filter, List.Ico.filter_lt, List.Ico.filter_le, Nat.max_comm,
    Nat.min_comm, Nat.succ_mul]

/-- The beats of a burst from one on are its bytes from the word of that beat on. -/
theorem flatMap_beatBytes (positive : 0 < width) (inside : offset < width) (some : 0 < count)
    (before : beat ≤ lastBeat width offset count + 1) :
    (List.Ico beat (lastBeat width offset count + 1)).flatMap
      (beatBytes width offset ((offset + count) % width) (lastBeat width offset count)) =
      List.Ico (max offset (beat * width)) (offset + count) := by
  have bounds := lastBeat_spec offset positive some
  induction left : lastBeat width offset count + 1 - beat generalizing beat with
  | zero =>
    obtain rfl : beat = lastBeat width offset count + 1 := by omega
    rw [List.Ico.self_empty, List.flatMap_nil, List.Ico.eq_nil_of_le (by omega)]
  | succ left inductionHypothesis =>
    have here : beat < lastBeat width offset count + 1 := by omega
    have word : beat * width ≤ lastBeat width offset count * width :=
      Nat.mul_le_mul_right width (by omega)
    have step : (beat + 1) * width = beat * width + width := Nat.succ_mul beat width
    rw [List.Ico.eq_cons here, List.flatMap_cons, inductionHypothesis (by omega) (by omega),
      beatBytes_eq positive inside some (by omega)]
    -- the beat ends where the next one starts, or with the burst
    rcases Nat.le_total (offset + count) ((beat + 1) * width) with ends | more
    · rw [Nat.min_eq_left ends, List.Ico.eq_nil_of_le (n := max offset ((beat + 1) * width)) (by omega),
        List.append_nil]
    · rw [Nat.min_eq_right more, Nat.max_eq_right (by omega : offset ≤ (beat + 1) * width),
        List.Ico.append_consecutive (by omega) more]

end Lanes

/-! ## Queues of bursts -/

section Queue

variable {β γ : Type*} (beats : β → Nat → List γ) (len : β → Nat)

/-- The bytes of a burst from a beat on. -/
def fromBeat (burst : β) (beat : Nat) : List γ :=
  (List.Ico beat (len burst + 1)).flatMap (beats burst)

/-- What is left of a queue of bursts, the first `beat` beats of the first one being done. -/
def restOf : List β → Nat → List γ
  | [], _ => []
  | burst :: bursts, beat => fromBeat beats len burst beat ++ bursts.flatMap (fromBeat beats len · 0)

variable {beats len} {burst : β} {bursts more : List β} {beat : Nat}

@[simp] theorem restOf_nil : restOf beats len [] beat = [] := rfl

theorem restOf_zero : restOf beats len bursts 0 = bursts.flatMap (fromBeat beats len · 0) := by
  cases bursts <;> rfl

/-- Bursts that join a queue are left as a whole. -/
theorem restOf_append (fresh : bursts = [] → beat = 0) : restOf beats len (bursts ++ more) beat =
    restOf beats len bursts beat ++ more.flatMap (fromBeat beats len · 0) := by
  cases bursts with
  | nil => rw [fresh rfl, restOf_nil, List.nil_append, List.nil_append, restOf_zero]
  | cons burst bursts =>
    rw [List.cons_append, restOf, restOf, List.flatMap_append, List.append_assoc]

theorem fromBeat_cons (before : beat ≤ len burst) :
    fromBeat beats len burst beat = beats burst beat ++ fromBeat beats len burst (beat + 1) := by
  rw [fromBeat, fromBeat, List.Ico.eq_cons (Nat.lt_succ_of_le before), List.flatMap_cons]

/-- A beat that is not the last one of its burst. -/
theorem restOf_more (before : beat < len burst) : restOf beats len (burst :: bursts) beat =
    beats burst beat ++ restOf beats len (burst :: bursts) (beat + 1) := by
  rw [restOf, restOf, fromBeat_cons (Nat.le_of_lt before), List.append_assoc]

/-- The last beat of a burst. -/
theorem restOf_last (ends : beat = len burst) : restOf beats len (burst :: bursts) beat =
    beats burst beat ++ restOf beats len bursts 0 := by
  subst ends
  rw [restOf, restOf_zero, fromBeat_cons (Nat.le_refl _), fromBeat, List.Ico.self_empty,
    List.flatMap_nil, List.append_nil]

/-- A beat leaves with its burst, if it is the last one, and the next beat is its successor otherwise. -/
theorem restOf_beat (before : beat ≤ len burst) : restOf beats len (burst :: bursts) beat =
    beats burst beat ++ restOf beats len (if beat = len burst then bursts else burst :: bursts)
      (if beat = len burst then 0 else beat + 1) := by
  split
  next ends => exact restOf_last ends
  next more => exact restOf_more (by omega)

variable (len) in
/-- The place in a queue of bursts: so many beats of the first one are done. -/
structure AtBeat (bursts : List β) (beat : Nat) : Prop where
  fresh : bursts = [] → beat = 0
  before : ∀ burst ∈ bursts.head?, beat ≤ len burst

namespace AtBeat

variable {done last : Bool} (place : AtBeat len bursts beat)
  (some : done = true → ∃ burst rest, bursts = burst :: rest ∧ last = (beat == len burst))

include place some

/-- A cycle: a beat of the first burst may be done, and bursts join at the end. -/
theorem step : AtBeat len ((if done && last then bursts.tail else bursts) ++ more)
    (if done then if last then 0 else beat + 1 else beat) := by
  cases done with
  | false =>
    refine ⟨fun none => place.fresh (List.append_eq_nil_iff.mp none).1, fun burst member => ?_⟩
    cases bursts with
    | nil => exact Nat.le_trans (Nat.le_of_eq (place.fresh rfl)) (Nat.zero_le _)
    | cons first rest => exact place.before burst member
  | true =>
    obtain ⟨first, rest, rfl, rfl⟩ := some rfl
    have before := place.before first rfl
    by_cases ends : beat = len first
    · rw [ends, beq_self_eq_true, if_pos rfl, if_pos rfl]
      exact ⟨fun _ => rfl, fun _ _ => Nat.zero_le _⟩
    · rw [beq_eq_false_iff_ne.mpr ends, if_pos rfl, if_neg Bool.false_ne_true]
      refine ⟨fun none => (by cases none), fun burst member => ?_⟩
      obtain rfl : first = burst := by simpa using member
      omega

variable (beats)

omit some in
/-- The beat that is done is the first of what is left. -/
theorem prefix_restOf (some : done = true → bursts ≠ []) :
    (if done then (bursts.head?.toList).flatMap (beats · beat) else []) <+:
      restOf beats len bursts beat := by
  cases done with
  | false => exact List.nil_prefix
  | true =>
    obtain ⟨burst, rest, rfl⟩ := List.exists_cons_of_ne_nil (some rfl)
    rw [restOf_beat (place.before burst rfl)]
    simp

/-- The beat that is done leaves what is left, and the bursts that join are left as a whole. -/
theorem passes (more : List β) : Passes (restOf beats len bursts beat) (more.flatMap (fromBeat beats len · 0))
    (if done then (bursts.head?.toList).flatMap (beats · beat) else [])
    (restOf beats len ((if done && last then bursts.tail else bursts) ++ more)
      (if done then if last then 0 else beat + 1 else beat)) := by
  unfold Passes
  cases done with
  | false => simpa using (restOf_append place.fresh).symm
  | true =>
    obtain ⟨burst, rest, rfl, rfl⟩ := some rfl
    rw [restOf_beat (place.before burst rfl), List.append_assoc]
    by_cases ends : beat = len burst
    · simp [ends, restOf_append]
    · have joined : restOf beats len (burst :: rest ++ more) (beat + 1) =
          restOf beats len (burst :: rest) (beat + 1) ++ more.flatMap (fromBeat beats len · 0) :=
        restOf_append fun none => absurd none (List.cons_ne_nil burst rest)
      simp [ends, ← joined]

end AtBeat

end Queue

/-- Two queues, one behind the other, are one: entries are handed over from the second to the first. -/
theorem handover {α : Type*} {first second : List α} {hands leaves : Bool}
    (some : leaves = true → first ++ (if hands then second.head?.toList else []) ≠ []) :
    (if leaves then (first ++ if hands then second.head?.toList else []).tail
        else first ++ if hands then second.head?.toList else []) ++
      (if hands then second.tail else second) =
      if leaves then (first ++ second).tail else first ++ second := by
  have whole : (first ++ if hands then second.head?.toList else []) ++
      (if hands then second.tail else second) = first ++ second := by
    cases hands <;> cases second <;> simp
  cases leaves with
  | false => exact whole
  | true => rw [if_pos rfl, if_pos rfl, ← List.tail_append_of_ne_nil (some rfl), whole]

/-- What is at the front of what was handed over is at the front of both. -/
theorem exists_of_handed {α : Type*} {first second front : List α} {entry : α} {hands : Bool}
    (isFront : first ++ (if hands then second.head?.toList else []) = entry :: front) :
    ∃ rest, first ++ second = entry :: rest := by
  cases first with
  | cons head rest =>
    obtain ⟨rfl, -⟩ := List.cons.inj isFront
    exact ⟨rest ++ second, rfl⟩
  | nil =>
    cases hands with
    | false => cases isFront
    | true =>
      cases second with
      | nil => cases isFront
      | cons head rest =>
        obtain ⟨rfl, -⟩ := List.cons.inj isFront
        exact ⟨rest, rfl⟩

/-- Two queues that move together, entry by entry. -/
theorem zipWith_queue {α β γ : Type*} (pair : α → β → γ) {as : List α} {bs : List β}
    (same : as.length = bs.length) (leaves joins : Bool) (a : α) (b : β) :
    List.zipWith pair ((if leaves then as.tail else as) ++ if joins then [a] else [])
      ((if leaves then bs.tail else bs) ++ if joins then [b] else []) =
      (if leaves then (List.zipWith pair as bs).tail else List.zipWith pair as bs) ++
        if joins then [pair a b] else [] := by
  have tails : as.tail.length = bs.tail.length := by
    rw [List.length_tail, List.length_tail, same]
  cases leaves <;> cases joins <;>
    simp [List.zipWith_append, List.tail_zipWith, same]

/-! ## Entries of pairwise different sources -/

section Front

variable {κ : Type} {α : Type*} [DecidableEq κ]

theorem ofKey_eq_nil {key : κ} {entries : List (κ × α)} (absent : key ∉ entries.map Prod.fst) :
    ofKey key entries = [] := by
  rw [ofKey, List.map_eq_nil_iff, List.filter_eq_nil_iff]
  intro entry member same
  rw [decide_eq_true_eq] at same
  exact absent (List.mem_map.mpr ⟨entry, member, same⟩)

/-- A source with one entry among different ones has that one. -/
theorem ofKey_eq_singleton {entry : κ × α} {entries : List (κ × α)}
    (nodup : (entries.map Prod.fst).Nodup) (member : entry ∈ entries) :
    ofKey entry.1 entries = [entry.2] := by
  induction entries with
  | nil => cases member
  | cons first entries inductionHypothesis =>
    rw [List.map_cons, List.nodup_cons] at nodup
    rcases List.mem_cons.mp member with rfl | later
    · rw [ofKey_cons_self, ofKey_eq_nil nodup.1]
    · have other : first.1 ≠ entry.1 := fun same =>
        nodup.1 (same ▸ List.mem_map_of_mem later)
      rw [ofKey_cons_ne other, inductionHypothesis nodup.2 later]

/-- Of entries whose sources are different, each source has its own or none. -/
theorem ofKey_map {keys : List κ} (nodup : keys.Nodup) (value : κ → α) (key : κ) :
    ofKey key (keys.map fun key => (key, value key)) = if key ∈ keys then [value key] else [] := by
  have sources : (keys.map fun key => (key, value key)).map Prod.fst = keys := by
    rw [List.map_map]
    exact List.map_id keys
  split
  next member =>
    have isEntry : (key, value key) ∈ keys.map fun key => (key, value key) :=
      List.mem_map_of_mem member
    exact ofKey_eq_singleton (by rwa [sources]) isEntry
  next absent => exact ofKey_eq_nil (by rwa [sources])

variable {front back : List (κ × α)} {key : κ}

/-- The oldest entry of each source in the front leaves, and the others stay. -/
theorem ofKey_front (nodup : (front.map Prod.fst).Nodup) : ofKey key back =
    if key ∈ front.map Prod.fst then (ofKey key (front ++ back)).tail else ofKey key (front ++ back) := by
  rw [ofKey_append]
  split
  next member =>
    obtain ⟨entry, inFront, rfl⟩ := List.mem_map.mp member
    rw [ofKey_eq_singleton nodup inFront, List.singleton_append, List.tail_cons]
  next absent => rw [ofKey_eq_nil absent, List.nil_append]

/-- If each of the keys that come first has an entry, they all come first. -/
theorem exists_front {entries : List (κ × α)} {keys later : List κ} (nodup : keys.Nodup)
    (ordered : entries.map Prod.fst <+: keys ++ later)
    (present : ∀ key ∈ keys, ofKey key entries ≠ []) :
    ∃ front back, entries = front ++ back ∧ front.map Prod.fst = keys := by
  have enough : keys.length ≤ entries.length := by
    by_contra fewer
    rw [Nat.not_le] at fewer
    -- the entries are those of the first keys only, so the next key has none
    have sources : entries.map Prod.fst = keys.take entries.length := by
      have same := List.prefix_iff_eq_take.mp ordered
      rw [List.length_map, List.take_append_of_le_length (Nat.le_of_lt fewer)] at same
      exact same
    refine present keys[entries.length] (List.getElem_mem fewer) (ofKey_eq_nil ?_)
    rw [sources, List.mem_take_iff_getElem]
    rintro ⟨i, inside, same⟩
    have index := (List.Nodup.getElem_inj_iff nodup).mp same
    omega
  refine ⟨entries.take keys.length, entries.drop keys.length, (List.take_append_drop _ _).symm, ?_⟩
  have same := List.prefix_iff_eq_take.mp ordered
  rw [List.map_take, same, List.take_take, List.length_map, Nat.min_eq_left enough,
    List.take_left]

variable (back) in
/-- Entries of different sources are told by what their sources have first. -/
theorem eq_map_of_first {value : κ → α} (nodup : (front.map Prod.fst).Nodup)
    (first : ∀ key ∈ front.map Prod.fst, (ofKey key (front ++ back)).head? = some (value key)) :
    front = (front.map Prod.fst).map fun key => (key, value key) := by
  rw [List.map_map]
  refine (List.map_id front).symm.trans (List.map_congr_left fun entry member => ?_)
  have here := first entry.1 (List.mem_map_of_mem member)
  rw [ofKey_append, ofKey_eq_singleton nodup member, List.singleton_append, List.head?_cons,
    Option.some.injEq] at here
  exact Prod.ext rfl here

end Front

end Pspin.Clocked
