import CanTracer.Loop
import CanTracer.CanMsg.Extract

/-!
# The extraction loop, round by round

The loop of `CanSignal::parseSignal` on its `uint8_t` variables. Each round takes the bits up to the end
of a byte, or what is left of the window: the rounds cut the window into consecutive pieces.
-/

namespace CanTracer
open Bits

namespace Extraction

/-- The variables of the loop. -/
structure Cursor where
  startBit : UInt8
  len : UInt8
  dataBytes : List UInt8

/-- A round with the byte at `startBit / bitsInByte`. -/
def Cursor.next (s : Cursor) (d : UInt8) : Cursor :=
  let remain := s.startBit.toNat % bitsInByte
  if remain = 0 then
    if bitsInByte ≤ s.len.toNat then
      ⟨s.startBit + bitsInByte.toUInt8, s.len - bitsInByte.toUInt8, s.dataBytes ++ [d]⟩
    else ⟨s.startBit, 0, s.dataBytes ++ [getNbit d s.len]⟩
  else
    let bit2Get := bitsInByte - remain
    if bit2Get < s.len.toNat then
      ⟨s.startBit + bit2Get.toUInt8, s.len - bit2Get.toUInt8,
        s.dataBytes ++ [getNbit (d.toNat >>> remain).toUInt8 bit2Get.toUInt8]⟩
    else ⟨s.startBit, 0, s.dataBytes ++ [getNbit (d.toNat >>> remain).toUInt8 s.len]⟩

/-- `while (len)`; without the byte there is no result. -/
def body (input : CanData) (s : Cursor) : Option (Loop.Next Cursor) :=
  if s.len = 0 then some (.stop s)
  else
    match input.at (s.startBit.toNat / bitsInByte) with
    | .error _ => none
    | .ok d => some (.next (s.next d))

/-- The states in which the loop goes round. -/
def rounds (input : CanData) (n : Nat) (s : Cursor) : List Cursor :=
  (Loop.visited (body input) n s).filter fun s => decide (s.len ≠ 0)

/-- The width of the chunk that a round appends. -/
def Cursor.took (s : Cursor) : Nat := min s.len.toNat (bitsInByte - s.startBit.toNat % bitsInByte)

/-- Whole bytes and the rest. -/
def byteWidths (len : Nat) : List Nat :=
  List.replicate (len / bitsInByte) bitsInByte ++ if len % bitsInByte = 0 then [] else [len % bitsInByte]

/-- First what the first byte holds of the window, then whole bytes and the rest. -/
def widths (startBit len : Nat) : List Nat :=
  let first := min len (bitsInByte - startBit % bitsInByte)
  first :: byteWidths (len - first)

/-- A round that reads inside the frame, on variables that move as numbers do. -/
structure Exact (dlc : Nat) (s : Cursor) : Prop where
  reads : s.startBit.toNat / bitsInByte < dlc
  startBit : s.startBit.toNat + s.took < 256
  len : s.took ≤ s.len.toNat
  moves : ∀ d, (s.next d).len.toNat = s.len.toNat - s.took ∧
    ((s.next d).len.toNat ≠ 0 → (s.next d).startBit.toNat = s.startBit.toNat + s.took)

/-- The chunks read with their widths, each from its lowest bit. -/
def readChunks (dataBytes : List UInt8) (widths : List Nat) : List Bool :=
  (List.zipWith (fun d w => bits d.toNat 0 w) dataBytes widths).flatten

/-! ### One round -/

theorem toNat_sub {len : UInt8} {k : Nat} (le : k ≤ len.toNat) : (len - k.toUInt8).toNat = len.toNat - k := by
  have small : k.toUInt8.toNat = k := by
    rw [Nat.toUInt8_eq, UInt8.toNat_ofNat_of_lt' (Nat.lt_of_le_of_lt le len.toNat_lt)]
  rw [UInt8.toNat_sub_of_le _ _ (by rw [UInt8.le_iff_toNat_le, small]; exact le), small]

theorem toNat_add (s : UInt8) {k : Nat} (small : k < 256) : (s + k.toUInt8).toNat = (s.toNat + k) % 256 := by
  rw [UInt8.toNat_add, Nat.toUInt8_eq, UInt8.toNat_ofNat_of_lt' small]

theorem len_ne_zero {len : UInt8} : len ≠ 0 ↔ len.toNat ≠ 0 := by
  rw [ne_eq, ← UInt8.toNat_inj]
  rfl

/-- A round takes its bits off the window, up to the last, which leaves `startBit` where it is. -/
theorem next_moves (s : Cursor) (d : UInt8) :
    (s.next d).len.toNat + s.took = s.len.toNat ∧
      ((s.next d).len.toNat ≠ 0 → (s.next d).startBit.toNat = (s.startBit.toNat + s.took) % 256 ∧
        s.took = bitsInByte - s.startBit.toNat % bitsInByte) := by
  have zero : (0 : UInt8).toNat = 0 := rfl
  unfold Cursor.next Cursor.took
  dsimp only
  by_cases aligned : s.startBit.toNat % bitsInByte = 0
  · rw [if_pos aligned, aligned, Nat.sub_zero]
    by_cases whole : bitsInByte ≤ s.len.toNat
    · rw [if_pos whole, Nat.min_eq_right whole, toNat_sub whole, toNat_add _ (by decide)]
      exact ⟨Nat.sub_add_cancel whole, fun _ => ⟨rfl, rfl⟩⟩
    · rw [if_neg whole, Nat.min_eq_left (by omega)]
      exact ⟨Nat.zero_add _, fun more => absurd zero more⟩
  · rw [if_neg aligned]
    by_cases more : bitsInByte - s.startBit.toNat % bitsInByte < s.len.toNat
    · have le := Nat.le_of_lt more
      rw [if_pos more, Nat.min_eq_right le, toNat_sub le, toNat_add _ (by rw [bitsInByte]; omega)]
      exact ⟨Nat.sub_add_cancel le, fun _ => ⟨rfl, rfl⟩⟩
    · rw [if_neg more, Nat.min_eq_left (by omega)]
      exact ⟨Nat.zero_add _, fun more => absurd zero more⟩

theorem took_pos {s : Cursor} (pos : s.len.toNat ≠ 0) : 0 < s.took := by
  rw [Cursor.took, bitsInByte]
  omega

/-- The loop and the recursion of the decoder build the same list. -/
theorem run_body (input : CanData) (n : Nat) : ∀ s : Cursor, s.len.toNat < n →
    (Loop.run (body input) n s).map (·.dataBytes) =
      (CanSignal.extract input s.startBit.toNat s.len.toNat s.dataBytes).toOption := by
  induction n with
  | zero => exact fun s fuel => absurd fuel (Nat.not_lt_zero _)
  | succ n ih =>
    intro s fuel
    by_cases zero : s.len = 0
    · have stop : body input s = some (.stop s) := if_pos zero
      rw [Loop.run_stop stop, CanSignal.extract, if_pos (by rw [zero]; rfl)]
      rfl
    have pos : s.len.toNat ≠ 0 := len_ne_zero.mp zero
    rw [CanSignal.extract, if_neg pos]
    cases read : input.at (s.startBit.toNat / bitsInByte) with
    | error e =>
      have fails : body input s = none := by rw [body, if_neg zero, read]
      rw [Loop.run, fails]
      dsimp only
      split_ifs <;> rfl
    | ok d =>
      have round : body input s = some (.next (s.next d)) := by rw [body, if_neg zero, read]
      have less := took_pos pos
      have moves := (next_moves s d).1
      rw [Loop.run_next round, ih (s.next d) (by omega)]
      unfold Cursor.next
      dsimp only
      by_cases aligned : s.startBit.toNat % bitsInByte = 0
      · rw [if_pos aligned, if_pos aligned]
        by_cases whole : bitsInByte ≤ s.len.toNat
        · rw [if_pos whole, if_pos whole, toNat_sub whole, toNat_add _ (by decide)]
          rfl
        · rw [if_neg whole, if_neg whole, ← toUInt8_of_toNat (rfl : s.len.toNat = _)]
          rfl
      · rw [if_neg aligned, if_neg aligned]
        by_cases more : bitsInByte - s.startBit.toNat % bitsInByte < s.len.toNat
        · rw [if_pos more, if_pos more, toNat_sub (Nat.le_of_lt more), toNat_add _ (by rw [bitsInByte]; omega)]
          rfl
        · rw [if_neg more, if_neg more, ← toUInt8_of_toNat (rfl : s.len.toNat = _)]
          rfl

/-! ### The rounds -/

theorem body_next {input : CanData} {s s' : Cursor} (h : body input s = some (.next s')) :
    s.len ≠ 0 ∧ ∃ d, input.at (s.startBit.toNat / bitsInByte) = .ok d ∧ s' = s.next d := by
  unfold body at h
  split at h
  · cases h
  · rename_i more
    split at h
    · cases h
    · rename_i d read
      exact ⟨more, d, read, (Loop.Next.next.inj (Option.some.inj h)).symm⟩

/-- While something is left, the rest of the window ends at or before bit `k`. -/
def Inside (k : Nat) (s : Cursor) : Prop := s.len.toNat ≠ 0 → s.startBit.toNat + s.len.toNat ≤ k

theorem took_le (s : Cursor) : s.took ≤ s.len.toNat := Nat.min_le_left _ _

theorem next_startBit {k : Nat} (small : k < 256) {s : Cursor} (inside : Inside k s) (pos : s.len.toNat ≠ 0) (d : UInt8)
    (more : (s.next d).len.toNat ≠ 0) : (s.next d).startBit.toNat = s.startBit.toNat + s.took := by
  have le := took_le s
  have fits := inside pos
  rw [((next_moves s d).2 more).1, Nat.mod_eq_of_lt (by omega)]

theorem next_inside {k : Nat} (small : k < 256) {s : Cursor} (inside : Inside k s) (pos : s.len.toNat ≠ 0) (d : UInt8) :
    Inside k (s.next d) := by
  intro more
  have fits := inside pos
  have moves := (next_moves s d).1
  rw [next_startBit small inside pos d more]
  omega

theorem exact_of_inside {dlc : Nat} (short : dlc ≤ 8) {s : Cursor} (inside : Inside (8 * dlc) s) (pos : s.len.toNat ≠ 0) :
    Exact dlc s := by
  have fits := inside pos
  have le := took_le s
  refine ⟨?_, by omega, le, fun d => ⟨?_, next_startBit (by omega) inside pos d⟩⟩
  · rw [bitsInByte]
    omega
  · rw [← (next_moves s d).1, Nat.add_sub_cancel]

theorem mem_rounds_inside {k : Nat} (small : k < 256) {input : CanData} {n : Nat} {s x : Cursor} (inside : Inside k s)
    (member : x ∈ rounds input n s) : x.len.toNat ≠ 0 ∧ Inside k x := by
  obtain ⟨visited, more⟩ := List.mem_filter.mp member
  have pos : x.len.toNat ≠ 0 := len_ne_zero.mp (of_decide_eq_true more)
  refine ⟨pos, Loop.visited_keeps (fun y y' inv next => ?_) n s inside x visited⟩
  obtain ⟨pos, d, -, rfl⟩ := body_next next
  exact next_inside small inv (len_ne_zero.mp pos) d

theorem rounds_done {input : CanData} {s : Cursor} (zero : s.len = 0) (n : Nat) : rounds input n s = [] := by
  cases n with
  | zero => rfl
  | succ n =>
    have stop : body input s = some (.stop s) := if_pos zero
    have last : decide (s.len ≠ 0) = false := decide_eq_false (not_not.mpr zero)
    rw [rounds, Loop.visited, stop]
    simp only [List.filter_cons, last, List.filter_nil]
    rfl

theorem rounds_next {input : CanData} {s s' : Cursor} (next : body input s = some (.next s')) (n : Nat) :
    rounds input (n + 1) s = s :: rounds input n s' := by
  rw [rounds, Loop.visited, next]
  exact List.filter_cons_of_pos (decide_eq_true (body_next next).1)

/-! ### The widths -/

/-- The widths of the pieces of a window, one after the other. -/
def cuts (s len : Nat) : List Nat :=
  if len = 0 then []
  else min len (8 - s % 8) :: cuts (s + min len (8 - s % 8)) (len - min len (8 - s % 8))
termination_by len

theorem cuts_zero (s : Nat) : cuts s 0 = [] := by rw [cuts, if_pos rfl]

theorem cuts_pos {s len : Nat} (pos : len ≠ 0) :
    cuts s len = min len (8 - s % 8) :: cuts (s + min len (8 - s % 8)) (len - min len (8 - s % 8)) := by
  rw [cuts, if_neg pos]

theorem rounds_took (input : CanData) (n : Nat) : ∀ s : Cursor, Inside 64 s → s.len.toNat < n →
    (rounds input n s).map Cursor.took = cuts s.startBit.toNat s.len.toNat := by
  induction n with
  | zero => exact fun s _ fuel => absurd fuel (Nat.not_lt_zero _)
  | succ n ih =>
    intro s inside fuel
    by_cases zero : s.len = 0
    · rw [rounds_done zero, zero]
      exact (cuts_zero _).symm
    have pos : s.len.toNat ≠ 0 := len_ne_zero.mp zero
    have fits := inside pos
    have less := took_pos pos
    obtain ⟨d, read, -⟩ := input.at_ok (i := s.startBit.toNat / bitsInByte) (by rw [bitsInByte]; omega)
    have next : body input s = some (.next (s.next d)) := by rw [body, if_neg zero, read]
    have moves := (next_moves s d).1
    have rest : cuts (s.next d).startBit.toNat (s.next d).len.toNat =
        cuts (s.startBit.toNat + s.took) (s.len.toNat - s.took) := by
      rw [← moves, Nat.add_sub_cancel]
      by_cases done : (s.next d).len.toNat = 0
      · rw [done, cuts_zero, cuts_zero]
      · rw [next_startBit (by decide) inside pos d done]
    rw [rounds_next next, List.map_cons, ih (s.next d) (next_inside (by decide) inside pos d) (by omega), rest, cuts_pos pos]
    rfl

theorem byteWidths_cons {len : Nat} (long : bitsInByte ≤ len) :
    byteWidths len = bitsInByte :: byteWidths (len - bitsInByte) := by
  rw [bitsInByte] at long
  have whole : len / bitsInByte = (len - bitsInByte) / bitsInByte + 1 := by rw [bitsInByte]; omega
  have rest : len % bitsInByte = (len - bitsInByte) % bitsInByte := by rw [bitsInByte]; omega
  rw [byteWidths, byteWidths, whole, rest, List.replicate_succ, List.cons_append]

theorem cuts_aligned (len : Nat) : ∀ s, s % 8 = 0 → cuts s len = byteWidths len := by
  induction len using Nat.strongRecOn with
  | ind len ih =>
    intro s aligned
    by_cases zero : len = 0
    · rw [zero, cuts_zero]
      rfl
    rw [cuts_pos zero, aligned, Nat.sub_zero]
    by_cases long : 8 ≤ len
    · rw [Nat.min_eq_right long, ih (len - 8) (by omega) _ (by omega), byteWidths_cons long]
    · have short : len < bitsInByte := not_le.mp long
      rw [Nat.min_eq_left (by omega), Nat.sub_self, cuts_zero, byteWidths, Nat.div_eq_of_lt short, Nat.mod_eq_of_lt short,
        if_neg zero]
      rfl

theorem cuts_eq_widths {s len : Nat} (pos : len ≠ 0) : cuts s len = widths s len := by
  rw [cuts_pos pos, widths]
  by_cases single : len ≤ 8 - s % 8
  · rw [Nat.min_eq_left single, Nat.sub_self, cuts_zero]
    rfl
  · rw [cuts_aligned _ _ (by omega)]

/-! ### The chunks -/

theorem chunks_cuts (n len : Nat) : ∀ s, List.Forall₂ (fun d w => d < 2 ^ w) (chunks n s len) (cuts s len) ∧
    (List.zipWith (fun d w => bits d 0 w) (chunks n s len) (cuts s len)).flatten = bits n s len := by
  induction len using Nat.strongRecOn with
  | ind len ih =>
    intro s
    by_cases zero : len = 0
    · rw [zero, chunks_zero, cuts_zero]
      exact ⟨.nil, rfl⟩
    rw [chunks_pos zero, cuts_pos zero]
    obtain ⟨small, read⟩ := ih (len - min len (8 - s % 8)) (by omega) (s + min len (8 - s % 8))
    refine ⟨.cons (window_lt _ _ _) small, ?_⟩
    rw [List.zipWith_cons_cons, List.flatten_cons, read, bits_window, ← bits_add, Nat.add_sub_cancel' (Nat.min_le_left _ _)]

/-- The rounds of the loop cut the window into consecutive pieces, inside the bytes and inside `uint8_t`. -/
theorem rounds_partition (input : CanData) (startBit len dlc : UInt8) (pos : 1 ≤ len.toNat) (short : dlc.toNat ≤ 8)
    (fits : startBit.toNat + len.toNat ≤ 8 * dlc.toNat) (n : Nat) (fuel : len.toNat < n) :
    ∃ last, Loop.run (body input) n ⟨startBit, len, []⟩ = some last ∧
      CanSignal.extract input startBit.toNat len.toNat [] = .ok last.dataBytes ∧
      (∀ s ∈ rounds input n ⟨startBit, len, []⟩, Exact dlc.toNat s) ∧
      (rounds input n ⟨startBit, len, []⟩).map Cursor.took = widths startBit.toNat len.toNat ∧
      List.Forall₂ (fun d w => d.toNat < 2 ^ w) last.dataBytes (widths startBit.toNat len.toNat) ∧
      readChunks last.dataBytes (widths startBit.toNat len.toNat) =
        (List.range len.toNat).map fun k => input.bit (startBit.toNat + k) := by
  have built := CanSignal.extract_eq input len.toNat startBit.toNat [] (by omega)
  rw [List.nil_append] at built
  have ran := run_body input n ⟨startBit, len, []⟩ fuel
  rw [built] at ran
  obtain ⟨last, ended, bytes⟩ := Option.map_eq_some_iff.mp ran
  have numbers : last.dataBytes.map (·.toNat) = chunks input.value startBit.toNat len.toNat := by
    rw [bytes, chunks_toNat]
  have cut : cuts startBit.toNat len.toNat = widths startBit.toNat len.toNat := cuts_eq_widths (by omega)
  obtain ⟨small, read⟩ := chunks_cuts input.value len.toNat startBit.toNat
  rw [← numbers, cut] at small read
  refine ⟨last, ended, by rw [bytes]; exact built, fun s member => ?_, ?_, ?_, ?_⟩
  · obtain ⟨more, inside⟩ := mem_rounds_inside (k := 8 * dlc.toNat) (by omega) (fun _ => fits) member
    exact exact_of_inside short inside more
  · rw [← cut]
    exact rounds_took input n ⟨startBit, len, []⟩ (fun _ => by dsimp only; omega) fuel
  · exact List.forall₂_map_left_iff.mp small
  · rw [List.zipWith_map_left] at read
    rw [readChunks, read]
    exact List.map_congr_left fun k _ => CanData.testBit_value input _

theorem rounds_partition_middle :
    let input : CanData := #v[0x5A, 0xC3, 0, 0, 0, 0, 0, 0]
    ∃ last, Loop.run (body input) 9 ⟨4, 8, []⟩ = some last ∧
      CanSignal.extract input 4 8 [] = .ok last.dataBytes ∧
      (∀ s ∈ rounds input 9 ⟨4, 8, []⟩, Exact 2 s) ∧
      (rounds input 9 ⟨4, 8, []⟩).map Cursor.took = widths 4 8 ∧
      List.Forall₂ (fun d w => d.toNat < 2 ^ w) last.dataBytes (widths 4 8) ∧
      readChunks last.dataBytes (widths 4 8) = (List.range 8).map fun k => input.bit (4 + k) := by
  intro input
  exact rounds_partition input 4 8 2 (by decide) (by decide) (by decide) 9 (by decide)

end Extraction
end CanTracer
