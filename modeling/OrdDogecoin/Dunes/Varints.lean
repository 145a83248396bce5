/-
Module: OrdDogecoin.Dunes.Varints
Purpose: The varint code on its buffers: the encoder with its 19 slots, the decoder with the length it
  consumes, and the two loops that read a buffer of varints.  The encoder never leaves its slots, the
  decoder gives back what was encoded, and both loops end inside every buffer.
Trusted boundary: none
Main exports: Varint.encodeToVec, BalancesRun, varints_exact
-/
import OrdDogecoin.Dunes.Encipher

namespace OrdDogecoin.Dunes

/-! ### The code on its buffers -/

namespace Varint

/-- The byte that the loop of `encode_to_vec` writes to a slot. -/
def slotByte (i n : ℕ) : UInt8 :=
  let byte := UInt8.ofNat n &&& 0b01111111
  if i < 18 then byte ||| 0b10000000 else byte

/-- The loop of `encode_to_vec` at the slot `i`; `none` is the panic of an index out of range, or of the
step down from the slot 0. -/
def encodeLoop : ℕ → ℕ → List UInt8 → Option (ℕ × List UInt8)
  | i, n, out =>
      if i < out.length then
        let out := out.set i (slotByte i n)
        if n < 128 then some (i, out)
        else
          match i with
          | 0 => none
          | i + 1 => encodeLoop i (n / 128 - 1) out
      else none

def encodeToVec (n : ℕ) (v : List UInt8) : Option (List UInt8) :=
  (encodeLoop 18 n (List.replicate 19 0)).map fun (i, out) => v ++ out.drop i

/-- The loop of `decode`, on the bytes from `i` on. -/
def decodeLoop : ℕ → ℕ → List UInt8 → ℕ × ℕ
  | n, i, [] => (n, i)
  | n, i, b :: rest =>
      let n := saturate (n * 128)
      if b.toNat < 128 then (saturate (n + b.toNat), i + 1)
      else decodeLoop (saturate (n + (b.toNat - 127))) (i + 1) rest

/-- `decode`: the number, and how many bytes it takes. -/
def decode (buffer : List UInt8) : ℕ × ℕ := decodeLoop 0 0 buffer

end Varint

open Varint

/-- The loop of `Dunestone::integers` at `i` ends and pushes these numbers. -/
inductive IntegersRun (payload : List UInt8) : ℕ → List ℕ → Prop where
  | done {i : ℕ} (hend : payload.length ≤ i) : IntegersRun payload i []
  | next {i integer length : ℕ} {integers : List ℕ} (hmore : i < payload.length)
      (hdecode : decode (payload.drop i) = (integer, length))
      (rest : IntegersRun payload (i + length) integers) : IntegersRun payload i (integer :: integers)

/-- The loop that reads a row of balances, at `i`, ends with these pairs.  A slice that starts behind the
buffer would be a panic. -/
inductive BalancesRun (buffer : List UInt8) : ℕ → List (ℕ × ℕ) → Prop where
  | done {i : ℕ} (hend : buffer.length ≤ i) : BalancesRun buffer i []
  | next {i id idLength balance length : ℕ} {balances : List (ℕ × ℕ)} (hmore : i < buffer.length)
      (hid : decode (buffer.drop i) = (id, idLength)) (hslice : i + idLength ≤ buffer.length)
      (hbalance : decode (buffer.drop (i + idLength)) = (balance, length))
      (rest : BalancesRun buffer (i + idLength + length) balances) :
      BalancesRun buffer i ((id, balance) :: balances)

/-! ### The encoder -/

theorem slotByte_eq (i n : ℕ) :
    slotByte i n = UInt8.ofNat (n % 128 + if decide (18 ≤ i) then 0 else 128) := by
  have hlow : (UInt8.ofNat n &&& 0b01111111).toNat = n % 128 := by
    have hmask : (0b01111111 : UInt8).toNat = 2 ^ 7 - 1 := rfl
    rw [UInt8.toNat_and, hmask, Nat.and_two_pow_sub_one_eq_mod, UInt8.toNat_ofNat']
    omega
  apply UInt8.toNat_inj.1
  rw [UInt8.toNat_ofNat']
  unfold slotByte
  by_cases hlast : 18 ≤ i
  · rw [if_neg (not_lt.2 hlast), decide_eq_true hlast, if_pos rfl, hlow]
    omega
  · have hhigh : (0b10000000 : UInt8).toNat = 2 ^ 7 * 1 := rfl
    rw [if_pos (not_le.1 hlast), decide_eq_false hlast, if_neg Bool.false_ne_true, UInt8.toNat_or,
      hlow, hhigh, Nat.or_comm, ← Nat.two_pow_add_eq_or_of_lt (by omega)]
    omega

theorem drop_set_self {out : List UInt8} {i : ℕ} (hslot : i < out.length) (byte : UInt8) :
    (out.set i byte).drop i = byte :: out.drop (i + 1) := by
  rw [List.drop_set, if_neg (Nat.lt_irrefl i), Nat.sub_self, List.drop_eq_getElem_cons hslot,
    List.set_cons_zero]

/-- From a slot on, a number that fits the slots down to the first is written without a panic. -/
theorem encodeLoop_spec {i n : ℕ} {out : List UInt8} (hslot : i < out.length) (hfirst : i ≤ 18)
    (hfits : n < 128 ^ (i + 1)) :
    ∃ start out', encodeLoop i n out = some (start, out') ∧
      out'.drop start = encodeSlots (i + 1) (decide (18 ≤ i)) n ++ out.drop (i + 1) := by
  induction i generalizing n out with
  | zero =>
      have hsmall : n < 128 := by simpa using hfits
      refine ⟨0, out.set 0 (slotByte 0 n), ?_, ?_⟩
      · rw [encodeLoop, if_pos hslot, if_pos hsmall]
      · rw [encodeSlots, if_pos hsmall, drop_set_self hslot, slotByte_eq]
        rfl
  | succ i ih =>
      by_cases hsmall : n < 128
      · refine ⟨i + 1, out.set (i + 1) (slotByte (i + 1) n), ?_, ?_⟩
        · rw [encodeLoop, if_pos hslot, if_pos hsmall]
        · rw [encodeSlots, if_pos hsmall, drop_set_self hslot, slotByte_eq]
          rfl
      · have hlower : n / 128 - 1 < 128 ^ (i + 1) := by
          have hdiv : n / 128 < 128 ^ (i + 1) := Nat.div_lt_of_lt_mul (by rwa [← pow_succ'])
          omega
        have hlength : i < (out.set (i + 1) (slotByte (i + 1) n)).length := by
          rw [List.length_set]
          omega
        obtain ⟨start, out', hloop, hdrop⟩ := ih hlength (by omega) hlower
        refine ⟨start, out', ?_, ?_⟩
        · rw [encodeLoop, if_pos hslot, if_neg hsmall]
          exact hloop
        · have hinner : decide (18 ≤ i) = false := decide_eq_false (by omega)
          rw [hdrop, drop_set_self hslot, slotByte_eq, hinner, encodeSlots.eq_def (i + 1 + 1)]
          dsimp only
          rw [if_neg hsmall, List.append_assoc]
          rfl

/-- The encoder appends the code of every `u128`. -/
theorem encodeToVec_eq {n : ℕ} (hle : n ≤ maxU128) (v : List UInt8) :
    encodeToVec n v = some (v ++ encodeVarint n) := by
  have hbound : maxU128 < 128 ^ 19 := by decide
  have hslot : 18 < (List.replicate 19 (0 : UInt8)).length := by decide
  obtain ⟨start, out, hloop, hdrop⟩ :=
    encodeLoop_spec hslot (Nat.le_refl 18) (Nat.lt_of_le_of_lt hle hbound)
  have hcode : out.drop start = encodeVarint n := hdrop.trans (List.append_nil _)
  unfold encodeToVec
  rw [hloop, ← hcode]
  rfl

theorem length_encodeSlots (slots : ℕ) (last : Bool) (n : ℕ) :
    (encodeSlots slots last n).length ≤ slots := by
  induction slots generalizing last n with
  | zero => exact Nat.le_refl 0
  | succ slots ih =>
      rw [encodeSlots]
      split
      · exact Nat.succ_le_succ (Nat.zero_le slots)
      · rw [List.length_append]
        exact Nat.succ_le_succ (ih false _)

/-- Every byte but the last has the high bit. -/
theorem mem_encodeSlots {slots n : ℕ} : ∀ byte ∈ encodeSlots slots false n, 128 ≤ byte.toNat := by
  induction slots generalizing n with
  | zero => exact nofun
  | succ slots ih =>
      have hbyte : 128 ≤ (UInt8.ofNat (n % 128 + 128)).toNat := by
        rw [UInt8.toNat_ofNat']
        omega
      rw [encodeSlots]
      split
      · simpa using hbyte
      · intro byte hmem
        rcases List.mem_append.1 hmem with hhigh | hlast
        · exact ih byte hhigh
        · rw [List.mem_singleton.1 hlast]
          exact hbyte

theorem exists_encodeVarint (n : ℕ) : ∃ high, encodeVarint n = high ++ [UInt8.ofNat (n % 128)] ∧
    ∀ byte ∈ high, 128 ≤ byte.toNat := by
  unfold encodeVarint
  rw [encodeSlots]
  split
  · exact ⟨[], rfl, List.forall_mem_nil _⟩
  · exact ⟨_, rfl, mem_encodeSlots⟩

/-! ### The decoder -/

/-- The bytes with the high bit, and the next one, are consumed. -/
theorem length_decodeLoop {high : List UInt8} (hhigh : ∀ byte ∈ high, 128 ≤ byte.toNat) {low : UInt8}
    (hlow : low.toNat < 128) (rest : List UInt8) (n i : ℕ) :
    (decodeLoop n i (high ++ low :: rest)).2 = i + high.length + 1 := by
  induction high generalizing n i with
  | nil => rw [List.nil_append, decodeLoop, if_pos hlow, List.length_nil, Nat.add_zero]
  | cons byte high ih =>
      obtain ⟨hbyte, hrest⟩ := List.forall_mem_cons.1 hhigh
      rw [List.cons_append, decodeLoop, if_neg (not_lt.2 hbyte), ih hrest, List.length_cons]
      omega

/-- The decoder takes the first number of the integers, and the bytes that are left have the others.
Only an empty rest takes no byte. -/
theorem decodeLoop_spec (pending : Option ℕ) (i : ℕ) (buffer : List UInt8)
    (hsome : buffer ≠ [] ∨ pending.isSome) :
    ∃ n length, decodeLoop (pending.getD 0) i buffer = (n, i + length) ∧ length ≤ buffer.length ∧
      (buffer ≠ [] → 0 < length) ∧
      integersFrom pending buffer = n :: integersFrom none (buffer.drop length) := by
  induction buffer generalizing pending i with
  | nil =>
      cases pending with
      | none => simp at hsome
      | some n => exact ⟨n, 0, rfl, Nat.le_refl 0, fun hne => absurd rfl hne, rfl⟩
  | cons byte rest ih =>
      rw [integersFrom_cons, decodeLoop]
      by_cases hlow : byte.toNat < 128
      · rw [if_pos hlow, if_pos hlow]
        exact ⟨_, 1, rfl, by simp, fun _ => Nat.one_pos, rfl⟩
      · rw [if_neg hlow, if_neg hlow]
        obtain ⟨n, length, hdecode, hle, -, hintegers⟩ :=
          ih (some (saturate (saturate (pending.getD 0 * 128) + (byte.toNat - 127)))) (i + 1) (.inr rfl)
        rw [Option.getD_some] at hdecode
        refine ⟨n, length + 1, ?_, Nat.succ_le_succ hle, fun _ => Nat.succ_pos length, hintegers⟩
        rw [hdecode, Nat.add_right_comm, Nat.add_assoc]

theorem decode_spec {buffer : List UInt8} (hne : buffer ≠ []) :
    ∃ n length, decode buffer = (n, length) ∧ length ≤ buffer.length ∧ 0 < length ∧
      integersFrom none buffer = n :: integersFrom none (buffer.drop length) := by
  obtain ⟨n, length, hdecode, hle, hpos, hintegers⟩ := decodeLoop_spec none 0 buffer (.inl hne)
  rw [Option.getD_none, Nat.zero_add] at hdecode
  exact ⟨n, length, hdecode, hle, hpos hne, hintegers⟩

theorem encodeVarint_ne_nil (n : ℕ) : encodeVarint n ≠ [] := by
  obtain ⟨high, henc, -⟩ := exists_encodeVarint n
  rw [henc]
  exact List.append_ne_nil_of_right_ne_nil high (List.cons_ne_nil _ _)

/-- What was encoded is given back, with its length, whatever follows. -/
theorem decode_encodeVarint {n : ℕ} (hle : n ≤ maxU128) (rest : List UInt8) :
    decode (encodeVarint n ++ rest) = (n, (encodeVarint n).length) := by
  have hne : encodeVarint n ++ rest ≠ [] :=
    List.append_ne_nil_of_left_ne_nil (encodeVarint_ne_nil n) rest
  have hvalue : n = (decode (encodeVarint n ++ rest)).1 := by
    obtain ⟨m, length, hdecode, -, -, hintegers⟩ := decode_spec hne
    rw [integersFrom_encodeVarint hle] at hintegers
    rw [hdecode]
    exact (List.cons.inj hintegers).1
  have hlength : (decode (encodeVarint n ++ rest)).2 = (encodeVarint n).length := by
    obtain ⟨high, henc, hhigh⟩ := exists_encodeVarint n
    have hlow : (UInt8.ofNat (n % 128)).toNat < 128 := by
      rw [UInt8.toNat_ofNat']
      omega
    rw [henc, List.append_assoc, List.singleton_append, decode, length_decodeLoop hhigh hlow,
      List.length_append, List.length_singleton, Nat.zero_add]
  exact Prod.ext hvalue.symm hlength

/-! ### The loops -/

section Loops

variable {buffer : List UInt8}

theorem drop_ne_nil {i : ℕ} (hmore : i < buffer.length) : buffer.drop i ≠ [] :=
  fun hnil => absurd (List.drop_eq_nil_iff.1 hnil) (not_le.2 hmore)

/-- The loop over the integers ends in every payload, with the integers of the model. -/
theorem integersRun_integers (payload : List UInt8) (i : ℕ) :
    IntegersRun payload i (integersFrom none (payload.drop i)) := by
  induction hleft : payload.length - i using Nat.strong_induction_on generalizing i with
  | _ left ih =>
      by_cases hmore : i < payload.length
      · obtain ⟨n, length, hdecode, -, hpos, hintegers⟩ := decode_spec (drop_ne_nil hmore)
        rw [hintegers, List.drop_drop]
        exact .next hmore hdecode (ih _ (by omega) _ rfl)
      · rw [List.drop_eq_nil_of_le (not_lt.1 hmore)]
        exact .done (not_lt.1 hmore)

theorem IntegersRun.unique {payload : List UInt8} {i : ℕ} {integers others : List ℕ}
    (run : IntegersRun payload i integers) (run' : IntegersRun payload i others) : integers = others := by
  induction run generalizing others with
  | done hend =>
      cases run' with
      | done => rfl
      | next hmore => omega
  | next hmore hdecode rest ih =>
      cases run' with
      | done hend => omega
      | next _ hdecode' rest' =>
          cases hdecode.symm.trans hdecode'
          rw [ih rest']

/-- The loop over a row of balances ends in every row, and its slices stay in the row. -/
theorem exists_balancesRun (buffer : List UInt8) (i : ℕ) : ∃ balances, BalancesRun buffer i balances := by
  induction hleft : buffer.length - i using Nat.strong_induction_on generalizing i with
  | _ left ih =>
      by_cases hmore : i < buffer.length
      · obtain ⟨id, idLength, hid, hle, hpos, -⟩ := decode_spec (drop_ne_nil hmore)
        rw [List.length_drop] at hle
        obtain ⟨balances, rest⟩ :=
          ih _ (by omega) (i + idLength + (decode (buffer.drop (i + idLength))).2) rfl
        exact ⟨_, .next hmore hid (by omega) rfl rest⟩
      · exact ⟨[], .done (not_lt.1 hmore)⟩

end Loops

/-! ### The code -/

/-- The varints of a list of `u128` values, one after the other; `none` if one of them panics. -/
def encodeAll (numbers : List (Fin (2 ^ 128))) : Option (List UInt8) :=
  numbers.foldlM (fun payload (n : Fin (2 ^ 128)) => encodeToVec n.val payload) []

theorem val_le_maxU128 (n : Fin (2 ^ 128)) : n.val ≤ maxU128 := Nat.le_of_lt_succ n.isLt

theorem encodeAll_eq (numbers : List (Fin (2 ^ 128))) :
    encodeAll numbers = some ((numbers.map Fin.val).flatMap encodeVarint) := by
  have hfold : ∀ payload : List UInt8,
      numbers.foldlM (fun payload (n : Fin (2 ^ 128)) => encodeToVec n.val payload) payload =
        some (payload ++ (numbers.map Fin.val).flatMap encodeVarint) := by
    induction numbers with
    | nil => simp
    | cons n numbers ih =>
        intro payload
        rw [List.foldlM_cons, encodeToVec_eq (val_le_maxU128 n), Option.bind_eq_bind, Option.bind_some,
          ih, List.map_cons, List.flatMap_cons, List.append_assoc]
  exact hfold []

/-- A code that is at the front of another is that one. -/
theorem eq_of_encodeVarint_isPrefix {n m : ℕ} (hn : n ≤ maxU128) (hm : m ≤ maxU128)
    (hfront : encodeVarint n <+: encodeVarint m) : n = m := by
  obtain ⟨rest, hrest⟩ := hfront
  have hdecode := decode_encodeVarint hn rest
  rw [hrest, ← List.append_nil (encodeVarint m), decode_encodeVarint hm] at hdecode
  exact (congrArg Prod.fst hdecode).symm

/-- The encoder appends a code of at most its 19 slots to every buffer, no code is at the front of
another, and the decoder gives back the number and the length whatever follows.  The loop over the
integers gives a list back from the concatenation of its codes.  Over arbitrary bytes, a decoder with
bytes left takes one at least, and both loops end without a slice behind their buffers. -/
theorem varints_exact :
    (∀ (n : Fin (2 ^ 128)) (v rest : List UInt8), ∃ code, encodeToVec n v = some (v ++ code) ∧
      code.length ≤ 19 ∧ decode (code ++ rest) = (n.val, code.length)) ∧
    (∀ n m : Fin (2 ^ 128), ∃ code code', encodeToVec n [] = some code ∧ encodeToVec m [] = some code' ∧
      (code <+: code' ↔ n = m)) ∧
    (∀ numbers : List (Fin (2 ^ 128)), ∃ payload, encodeAll numbers = some payload ∧
      ∀ integers, IntegersRun payload 0 integers ↔ integers = numbers.map Fin.val) ∧
    (∀ (byte : UInt8) (rest : List UInt8), 1 ≤ (decode (byte :: rest)).2 ∧
      (decode (byte :: rest)).2 ≤ (byte :: rest).length) ∧
    (∀ payload : List UInt8, ∃ integers, IntegersRun payload 0 integers) ∧
    ∀ buffer : List UInt8, ∃ balances, BalancesRun buffer 0 balances := by
  refine ⟨?_, ?_, ?_, ?_, ?_, ?_⟩
  · intro n v rest
    exact ⟨encodeVarint n, encodeToVec_eq (val_le_maxU128 n) v, length_encodeSlots 19 true n,
      decode_encodeVarint (val_le_maxU128 n) rest⟩
  · intro n m
    refine ⟨_, _, encodeToVec_eq (val_le_maxU128 n) [], encodeToVec_eq (val_le_maxU128 m) [], ?_⟩
    constructor
    · intro hfront
      exact Fin.ext (eq_of_encodeVarint_isPrefix (val_le_maxU128 n) (val_le_maxU128 m) hfront)
    · rintro rfl
      exact List.prefix_refl _
  · intro numbers
    refine ⟨_, encodeAll_eq numbers, fun others => ?_⟩
    have hle : ∀ n ∈ numbers.map Fin.val, n ≤ maxU128 := by
      simp only [List.forall_mem_map]
      exact fun n _ => val_le_maxU128 n
    have run := integersRun_integers ((numbers.map Fin.val).flatMap encodeVarint) 0
    have hintegers : integersFrom none ((numbers.map Fin.val).flatMap encodeVarint) =
        numbers.map Fin.val := integers_encode hle
    rw [List.drop_zero, hintegers] at run
    constructor
    · intro run'
      exact run'.unique run
    · rintro rfl
      exact run
  · intro byte rest
    obtain ⟨n, length, hdecode, hle, hpos, -⟩ := decode_spec (List.cons_ne_nil byte rest)
    rw [hdecode]
    exact ⟨hpos, hle⟩
  · intro payload
    exact ⟨_, integersRun_integers payload 0⟩
  · intro buffer
    exact exists_balancesRun buffer 0

end OrdDogecoin.Dunes
