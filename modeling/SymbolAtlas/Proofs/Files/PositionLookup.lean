import SymbolAtlas.Proofs.Files.PositionTable

/-! Looking up an ordinal halves the table until the entries before it are known.
The byte that is answered is the one at which the code point begins when the file
is decoded from its first byte, and an ordinal is refused exactly when the file
has fewer code points. -/
namespace SymbolAtlas.PositionIndex
open Utf8

variable {index : PositionIndex} {widths : List Nat}

/-- Halving finds the one place where the entries below the ordinal end. -/
theorem countBelow_eq {wide : Array (UInt32 × UInt32)} {ordinal : UInt32} {count low high : Nat}
    (below : ∀ (i : Nat) entry, i < count → wide[i]? = some entry → entry.1 < ordinal)
    (above : ∀ (i : Nat) entry, count ≤ i → wide[i]? = some entry → ¬ entry.1 < ordinal)
    (lowBound : low ≤ count) (highBound : count ≤ high) (inside : high ≤ wide.size) :
    countBelow wide ordinal low high = count := by
  fun_induction countBelow wide ordinal low high with
  | case1 low high more middle entry extra found smaller ih =>
    have past : middle < count :=
      Nat.lt_of_not_le fun reached => above middle _ reached found smaller
    exact ih (by omega) highBound inside
  | case2 low high more middle entry extra found larger ih =>
    have notPast : count ≤ middle :=
      Nat.le_of_not_lt fun before => larger (below middle _ before found)
    exact ih lowBound notPast (by omega)
  | case3 low high more middle missing =>
    have within : middle < wide.size := by omega
    rw [Array.getElem?_eq_getElem within] at missing
    cases missing
  | case4 low high done => omega

/-- Where a table is divided at the ordinal, halving finds the seam. -/
theorem countBelow_of_append {wide : Array (UInt32 × UInt32)} {ordinal : UInt32}
    {front back : List (UInt32 × UInt32)} (split : wide.toList = front ++ back)
    (below : ∀ entry ∈ front, entry.1 < ordinal) (above : ∀ entry ∈ back, ¬ entry.1 < ordinal) :
    countBelow wide ordinal 0 wide.size = front.length := by
  have size := congrArg List.length split
  rw [List.length_append, Array.length_toList] at size
  apply countBelow_eq _ _ (Nat.zero_le _) (by omega) (Nat.le_refl _)
  · intro i entry before found
    rw [← Array.getElem?_toList, split, List.getElem?_append_left before] at found
    exact below entry (List.mem_of_getElem? found)
  · intro i entry after found
    rw [← Array.getElem?_toList, split, List.getElem?_append_right after] at found
    exact above entry (List.mem_of_getElem? found)

/-- The counters of an index hold their numbers exactly. -/
theorem Represents.small (represents : Represents index widths) : widths.sum < UInt32.size := by
  rw [← represents.byteLength]
  exact index.byteLength.toNat_lt

theorem Represents.surplus_bound (represents : Represents index widths) :
    widths.length + surplus widths = widths.sum :=
  length_add_surplus widths represents.positive

/-- The table around an ordinal: the entries of the code points before it, then
those of the others. -/
theorem Represents.wide_split (represents : Represents index widths) (ordinal : Nat) :
    index.wide.toList =
      (wideEntries 0 0 (widths.take ordinal)).map word32Entry ++
        (wideEntries (widths.take ordinal).length (surplus (widths.take ordinal))
          (widths.drop ordinal)).map word32Entry := by
  rw [represents.wide, ← List.map_append]
  have split := wideEntries_append 0 0 (widths.take ordinal) (widths.drop ordinal)
  rw [List.take_append_drop, Nat.zero_add, Nat.zero_add] at split
  rw [split]

private theorem word32_lt_iff {n : Nat} {ordinal : UInt32} (small : n < UInt32.size) :
    n.toUInt32 < ordinal ↔ n < ordinal.toNat := by
  rw [UInt32.lt_iff_toNat_lt, UInt32.toNat_ofNat_of_lt' small]

/-- The entries that are counted are those of the code points before the ordinal. -/
theorem Represents.countBelow_eq (represents : Represents index widths) {ordinal : UInt32}
    (inside : ordinal.toNat ≤ widths.length) :
    countBelow index.wide ordinal 0 index.wide.size =
      (wideEntries 0 0 (widths.take ordinal.toNat)).length := by
  have total := represents.surplus_bound
  have small := represents.small
  have taken : (widths.take ordinal.toNat).length = ordinal.toNat := List.length_take_of_le inside
  rw [countBelow_of_append (represents.wide_split ordinal.toNat), List.length_map]
  · intro entry counted
    obtain ⟨_, member, rfl⟩ := List.mem_map.mp counted
    have range := mem_wideEntries member
    rw [word32Entry, word32_lt_iff (by omega)]
    omega
  · intro entry left
    obtain ⟨_, member, rfl⟩ := List.mem_map.mp left
    have range := mem_wideEntries member
    rw [List.length_drop, taken] at range
    rw [word32Entry, word32_lt_iff (by omega)]
    omega

/-- The last of the entries before an ordinal holds their surplus. -/
theorem Represents.surplus_before (represents : Represents index widths) (ordinal : Nat) :
    (match (wideEntries 0 0 (widths.take ordinal)).length with
      | 0 => 0
      | preceding + 1 => (index.wide[preceding]?.map (·.2)).getD 0) =
      (surplus (widths.take ordinal)).toUInt32 := by
  have last := last_wideEntry 0 0 (widths.take ordinal)
  rw [Nat.zero_add] at last
  have split := represents.wide_split ordinal
  generalize wideEntries 0 0 (widths.take ordinal) = entries at last split
  cases count : entries.length with
  | zero =>
    rw [List.length_eq_zero_iff.mp count] at last
    rw [← last]
    rfl
  | succ preceding =>
    have held : entries.getLast? = entries[preceding]? := by
      rw [List.getLast?_eq_getElem?, count, Nat.add_sub_cancel]
    have within : preceding < entries.length := by omega
    rw [held, List.getElem?_eq_getElem within] at last
    dsimp only
    rw [← Array.getElem?_toList, split, List.getElem?_append_left (by simpa using within),
      List.getElem?_map, List.getElem?_eq_getElem within, ← last]
    rfl

theorem sum_take_le (widths : List Nat) (ordinal : Nat) :
    (widths.take ordinal).sum ≤ widths.sum := by
  have joined := congrArg List.sum (List.take_append_drop ordinal widths)
  rw [List.sum_append] at joined
  omega

/-- An ordinal that is not beyond the last code point is answered with the bytes
before that code point. -/
theorem Represents.byteOffset_eq (represents : Represents index widths) {ordinal : UInt32}
    (inside : ordinal.toNat ≤ widths.length) :
    ∃ offset, index.byteOffset ordinal = .ok offset ∧
      offset.toNat = (widths.take ordinal.toNat).sum := by
  have accepted : ¬ index.charCount < ordinal := by
    rw [UInt32.lt_iff_toNat_lt, represents.charCount]
    omega
  refine ⟨ordinal + (surplus (widths.take ordinal.toNat)).toUInt32, ?_, ?_⟩
  · rw [byteOffset, if_neg accepted, represents.countBelow_eq inside]
    exact congrArg (fun extra => Except.ok (ordinal + extra))
      (represents.surplus_before ordinal.toNat)
  · have taken : (widths.take ordinal.toNat).length = ordinal.toNat :=
      List.length_take_of_le inside
    have total := length_add_surplus (widths.take ordinal.toNat)
      fun width member => represents.positive width (List.mem_of_mem_take member)
    have bound := sum_take_le widths ordinal.toNat
    have small := represents.small
    rw [UInt32.toNat_add, UInt32.toNat_ofNat_of_lt' (by omega), ← total, taken]
    apply Nat.mod_eq_of_lt
    show _ < UInt32.size
    omega

/-- An ordinal is refused exactly when it is beyond the last code point. -/
theorem Represents.byteOffset_error_iff (represents : Represents index widths) (ordinal : UInt32) :
    index.byteOffset ordinal = .error (.outOfRange ordinal index.charCount) ↔
      widths.length < ordinal.toNat := by
  constructor
  · intro refused
    refine Nat.lt_of_not_le fun inside => ?_
    obtain ⟨offset, answered, _⟩ := represents.byteOffset_eq inside
    rw [answered] at refused
    cases refused
  · intro beyond
    rw [byteOffset, if_pos]
    rw [UInt32.lt_iff_toNat_lt, represents.charCount]
    exact beyond

/-- What an index answers with are the bytes before the code point. -/
theorem Represents.byteOffset_eq_ok_iff (represents : Represents index widths)
    {ordinal offset : UInt32} :
    index.byteOffset ordinal = .ok offset ↔
      ordinal.toNat ≤ widths.length ∧ offset.toNat = (widths.take ordinal.toNat).sum := by
  by_cases inside : ordinal.toNat ≤ widths.length
  · obtain ⟨found, answered, value⟩ := represents.byteOffset_eq inside
    rw [answered, Except.ok.injEq, ← value, UInt32.toNat_inj, and_iff_right inside, eq_comm]
  · rw [(represents.byteOffset_error_iff ordinal).mpr (Nat.lt_of_not_le inside)]
    refine iff_of_false ?_ fun answer => inside answer.1
    rintro ⟨⟩

/-- Every answer of an index, the refusals included. -/
theorem Represents.byteOffset_spec (represents : Represents index widths) (ordinal : UInt32) :
    (index.byteOffset ordinal).map UInt32.toNat =
      if ordinal.toNat ≤ widths.length then .ok (widths.take ordinal.toNat).sum
      else .error (.outOfRange ordinal index.charCount) := by
  by_cases inside : ordinal.toNat ≤ widths.length
  · obtain ⟨offset, answered, value⟩ := represents.byteOffset_eq inside
    rw [if_pos inside, answered, ← value]
    rfl
  · rw [if_neg inside, (represents.byteOffset_error_iff ordinal).mpr (Nat.lt_of_not_le inside)]
    rfl

/-- The index of a file agrees with the one decoding of its bytes: it counts the
steps and the bytes, answers each ordinal with the bytes of all steps before it,
and refuses exactly the ordinals beyond the last step. The bytes need not be
well-formed anywhere. -/
theorem index_agrees_with_decoding (content : List UInt8)
    (small : content.length < UInt32.size) :
    ∃ index widths, ofContent content = .ok index ∧
      (∀ found, Decodes content found ↔ found = widths) ∧
      index.charCount.toNat = widths.length ∧ index.byteLength.toNat = content.length ∧
      (∀ ordinal : UInt32, (index.byteOffset ordinal).map UInt32.toNat =
        if ordinal.toNat ≤ widths.length then .ok (widths.take ordinal.toNat).sum
        else .error (.outOfRange ordinal index.charCount)) ∧
      index.byteOffset 0 = .ok 0 ∧ index.byteOffset index.charCount = .ok index.byteLength := by
  have decodes := decodes_stepWidths content
  obtain ⟨index, built, represents⟩ := ofContent_represents small decodes
  refine ⟨index, stepWidths content, built, fun _ => decodes_iff, represents.charCount,
    represents.byteLength.trans (decodes_sum decodes), represents.byteOffset_spec, ?_, ?_⟩
  · obtain ⟨offset, answered, value⟩ := represents.byteOffset_eq
      (show (0 : UInt32).toNat ≤ (stepWidths content).length from Nat.zero_le _)
    rw [answered]
    exact congrArg Except.ok (UInt32.toNat_inj.mp value)
  · obtain ⟨offset, answered, value⟩ :=
      represents.byteOffset_eq (Nat.le_of_eq represents.charCount)
    rw [represents.charCount, List.take_length, ← represents.byteLength] at value
    rw [answered]
    exact congrArg Except.ok (UInt32.toNat_inj.mp value)

/-- A letter, a two-byte character, a cut sequence, an encoded surrogate and a
lead byte at the end: only the character takes more than a byte. -/
theorem index_of_mixed_bytes :
    let content : List UInt8 := [0x61, 0xC3, 0xA9, 0xE2, 0x82, 0xED, 0xA0, 0x80, 0xC3]
    content.length < UInt32.size ∧
      ∃ index widths, ofContent content = .ok index ∧
        (∀ found, Decodes content found ↔ found = widths) ∧
        widths = [1, 2, 1, 1, 1, 1, 1, 1] ∧
        (index.byteOffset 2).map UInt32.toNat = .ok 3 ∧
        index.byteOffset 9 = .error (.outOfRange 9 8) := by
  intro content
  have small : content.length < UInt32.size := by decide
  obtain ⟨index, widths, built, unique, count, _, answers, _⟩ :=
    index_agrees_with_decoding content small
  have steps : widths = [1, 2, 1, 1, 1, 1, 1, 1] :=
    ((unique _).mp (decodes_stepWidths content)).symm.trans (by decide)
  have counted : index.charCount = 8 := UInt32.toNat_inj.mp (by rw [count, steps]; rfl)
  refine ⟨small, index, widths, built, unique, steps, ?_, ?_⟩
  · rw [answers, steps]
    rfl
  · have refused := answers 9
    rw [steps, counted] at refused
    cases answered : index.byteOffset 9 with
    | ok offset => rw [answered] at refused; cases refused
    | error error => rw [answered] at refused; cases refused; rfl

end SymbolAtlas.PositionIndex
