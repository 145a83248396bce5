/-
Module: OrdDogecoin.Inscriptions.PushDecoders
Purpose: The two push decoders of the envelope parser with every access that could panic: the decoder of
  the index, which reads the lengths of PUSHDATA2 and PUSHDATA4 from the opcode byte on, and the strict
  one, which reads them as the node does.  Both settle on every script, and they agree on a script whose
  decoding meets neither opcode.
Trusted boundary: `usize` has 64 bits
Main exports: decodePushDatas, decodePushDatasStrict, pushDecoders_agree
-/
import OrdDogecoin.Lib.Slices
import OrdDogecoin.Inscriptions.Envelope

namespace OrdDogecoin.Inscriptions.InscriptionParser

open Chain Results Slices

/-! ### Arithmetic -/

/-- `a - b` in `u8`. -/
def subByte (a b : UInt8) : Run UInt8 := if b ≤ a then .ok (a - b) else .error .panicked

def sumShifted : List (UInt8 × ℕ) → ℕ → Run ℕ
  | [], total => .ok total
  | (byte, shift) :: bytes, total => do
      let total ← addUsize total (byte.toNat <<< shift)
      sumShifted bytes total

/-! ### The decoder of the index -/

/-- The payload from `header` to `stop`, when the script is that long. -/
def copyPush (bytes : Bytes) (header stop : ℕ) : Run (Bytes × ℕ) :=
  if bytes.length < stop then .error .refused
  else do
    let push ← slice bytes header stop
    .ok (push, stop)

/-- One round of `decode_push_datas`: the push and the bytes it uses. -/
def compatRound (bytes : Bytes) : Run (Bytes × ℕ) := do
  let opcode ← index bytes 0
  if opcode = 0 then .ok ([], 1)
  else if 81 ≤ opcode ∧ opcode ≤ 96 then do
    let number ← subByte opcode 80
    .ok ([number], 1)
  else if 1 ≤ opcode ∧ opcode ≤ 75 then do
    let stop ← addUsize 1 opcode.toNat
    copyPush bytes 1 stop
  else if opcode = 76 then
    if bytes.length < 2 then .error .refused
    else do
      let len ← index bytes 1
      let stop ← addUsize 2 len.toNat
      copyPush bytes 2 stop
  else if opcode = 77 then
    -- the historical length starts at the opcode byte
    if bytes.length < 3 then .error .refused
    else do
      let high ← index bytes 1
      let low ← index bytes 0
      let len ← sumShifted [(high, 8), (low, 0)] 0
      let stop ← addUsize 3 len
      copyPush bytes 3 stop
  else if opcode = 78 then
    if bytes.length < 5 then .error .refused
    else do
      let b3 ← index bytes 3
      let b2 ← index bytes 2
      let b1 ← index bytes 1
      let b0 ← index bytes 0
      let len ← sumShifted [(b3, 24), (b2, 16), (b1, 8), (b0, 0)] 0
      let stop ← checkedAddUsize 5 len
      copyPush bytes 5 stop
  else .error .refused

def decodePushDatas (script : Script) : Run (List Bytes) := readAll compatRound script.length script []

/-! ### The strict decoder -/

/-- The header and the length of a data push. -/
def strictHeader (bytes : Bytes) (opcode : UInt8) : Run (ℕ × ℕ) :=
  if opcode = 0 then .ok (1, 0)
  else if 1 ≤ opcode ∧ opcode ≤ 75 then .ok (1, opcode.toNat)
  else if opcode = 76 then do
    let len ← get bytes 1
    .ok (2, len.toNat)
  else if opcode = 77 then do
    let b1 ← get bytes 1
    let b2 ← get bytes 2
    .ok (3, LittleEndian.ofLeBytes [b1, b2])
  else if opcode = 78 then do
    let b1 ← get bytes 1
    let b2 ← get bytes 2
    let b3 ← get bytes 3
    let b4 ← get bytes 4
    .ok (5, LittleEndian.ofLeBytes [b1, b2, b3, b4])
  else .error .refused

/-- One round of `decode_push_datas_strict`. -/
def strictRound (bytes : Bytes) : Run (Bytes × ℕ) := do
  let opcode ← get bytes 0
  if 81 ≤ opcode ∧ opcode ≤ 96 then do
    let number ← subByte opcode 80
    .ok ([number], 1)
  else do
    let (header, len) ← strictHeader bytes opcode
    let stop ← checkedAddUsize header len
    let push ← getSlice bytes header stop
    .ok (push, stop)

def decodePushDatasStrict (script : Script) : Run (List Bytes) :=
  readAll strictRound script.length script []

-- PUSHDATA2 with its length in the two bytes behind it, which the index reads as a push of 77 bytes
example : decodePushDatasStrict [77, 1, 0, 5] = .ok [[5]] ∧
    decodePushDatas [77, 1, 0, 5] = .error .refused := by decide

/-! ### The rounds of the index -/

theorem subByte_of_le {a b : UInt8} (hle : b ≤ a) : subByte a b = .ok (a - b) := if_pos hle

variable {bytes : Bytes} {header len : ℕ} {next next' : Option (Bytes × Bytes)}

/-- A push behind a header that lies in the script. -/
theorem copyPush_eq :
    copyPush bytes header (header + len) =
      if bytes.length < header + len then .error .refused
      else .ok ((bytes.drop header).take len, header + len) := by
  unfold copyPush
  split
  next => rfl
  next hlong =>
    rw [slice_of_le (Nat.le_add_right _ _) (Nat.le_of_not_lt hlong), Nat.add_sub_cancel_left]
    rfl

/-- What a round leaves on a script, beside the outcome of `nextPush`. -/
inductive ReadsAs (bytes : Bytes) : Option (Bytes × Bytes) → Run (Bytes × ℕ) → Prop where
  | refused : ReadsAs bytes none (.error .refused)
  | push {push : Bytes} {used : ℕ} (hpos : 0 < used) (hle : used ≤ bytes.length) :
      ReadsAs bytes (some (push, bytes.drop used)) (.ok (push, used))

theorem ReadsAs.settles {next : Option (Bytes × Bytes)} {run : Run (Bytes × ℕ)}
    (hreads : ReadsAs bytes next run) : Settles run := by
  cases hreads with
  | refused => exact settles_refused
  | push hpos hle => exact settles_ok _

/-- The outcome of `nextPush` decides the round. -/
theorem ReadsAs.eq {run run' : Run (Bytes × ℕ)} (hreads : ReadsAs bytes next run)
    (hreads' : ReadsAs bytes next' run') (hnext : next = next') :
    run = run' := by
  cases hreads with
  | refused =>
      cases hreads' with
      | refused => rfl
      | push hpos hle => cases hnext
  | push hpos hle =>
      cases hreads' with
      | refused => cases hnext
      | push hpos' hle' =>
          have hpair := Option.some.inj hnext
          have hlength := congrArg (fun pair => pair.2.length) hpair
          simp only [List.length_drop] at hlength
          have hused := (tsub_right_inj hle hle').mp hlength
          rw [(Prod.mk.inj hpair).1, hused]

theorem ReadsAs.ite {p q : Prop} [Decidable p] [Decidable q] (hiff : q ↔ p)
    {run run' : Run (Bytes × ℕ)} (hthen : p → ReadsAs bytes next run)
    (helse : ¬p → ReadsAs bytes next' run') :
    ReadsAs bytes (if p then next else next') (if q then run else run') := by
  by_cases hp : p
  · rw [if_pos hp, if_pos (hiff.mpr hp)]
    exact hthen hp
  · rw [if_neg hp, if_neg (mt hiff.mp hp)]
    exact helse hp

theorem ReadsAs.bind_ite {α : Type} {p q : Prop} [Decidable p] [Decidable q] (hiff : q ↔ p)
    {run run' : Run α} {after : α → Run (Bytes × ℕ)}
    (hthen : p → ReadsAs bytes next (run >>= after))
    (helse : ¬p → ReadsAs bytes next' (run' >>= after)) :
    ReadsAs bytes (if p then next else next') ((if q then run else run') >>= after) := by
  rw [apply_ite (· >>= after)]
  exact ReadsAs.ite hiff hthen helse

theorem readsAs_copyPush (hpos : 0 < header) :
    ReadsAs bytes (takePush header len bytes) (copyPush bytes header (header + len)) := by
  rw [copyPush_eq, takePush]
  split
  next => exact .refused
  next hlong => exact .push (Nat.add_pos_left hpos _) (Nat.le_of_not_lt hlong)

/-- A checked slice is the copy of the decoder of the index. -/
theorem copyPush_eq_getSlice :
    (getSlice bytes header (header + len) >>= fun push => .ok (push, header + len)) =
      copyPush bytes header (header + len) := by
  rw [copyPush_eq]
  split
  next hshort =>
    have hpart : getSlice bytes header (header + len) = .error .refused :=
      if_neg fun h => Nat.not_lt_of_le h.2 hshort
    rw [hpart]
    rfl
  next hlong =>
    have hpart := getSlice_eq_ok.mpr
      ⟨⟨Nat.le_add_right header len, Nat.le_of_not_lt hlong⟩, rfl⟩
    rw [hpart, Nat.add_sub_cancel_left]
    rfl

theorem addUsize_toNat (header : ℕ) (hheader : header ≤ 5) (byte : UInt8) :
    addUsize header byte.toNat = .ok (header + byte.toNat) := by
  have hbyte := byte.toNat_lt
  exact addUsize_of_lt (by omega)

/-- A sum that stays in `usize` is the sum. -/
theorem sumShifted_of_lt {bytes : List (UInt8 × ℕ)} :
    ∀ {total : ℕ}, total + (bytes.map fun part => part.1.toNat <<< part.2).sum < 2 ^ 64 →
      sumShifted bytes total = .ok (total + (bytes.map fun part => part.1.toNat <<< part.2).sum) := by
  induction bytes with
  | nil => exact fun _ => rfl
  | cons part bytes ih =>
      intro total hlt
      rw [List.map_cons, List.sum_cons, ← Nat.add_assoc] at hlt ⊢
      rw [sumShifted, addUsize_of_lt (Nat.lt_of_le_of_lt (Nat.le_add_right _ _) hlt)]
      exact ih hlt

theorem index_getD {n i : ℕ} (hlong : ¬bytes.length < n) (hi : i < n) :
    index bytes i = .ok (bytes.getD i 0) :=
  index_of_lt (Nat.lt_of_lt_of_le hi (Nat.le_of_not_lt hlong)) 0

/-- A push whose length is a sum of shifted bytes. -/
theorem readsAs_sumShifted {parts : List (UInt8 × ℕ)} {add : ℕ → ℕ → Run ℕ}
    (hadd : ∀ {a b}, a + b < 2 ^ 64 → add a b = .ok (a + b)) (hpos : 0 < header)
    (hlen : (parts.map fun part => part.1.toNat <<< part.2).sum = len) (hlt : header + len < 2 ^ 64) :
    ReadsAs bytes (takePush header len bytes)
      (sumShifted parts 0 >>= fun len => add header len >>= fun stop => copyPush bytes header stop) := by
  rw [sumShifted_of_lt (by rw [hlen]; omega), hlen, Nat.zero_add]
  rw [ok_bind, hadd hlt]
  exact readsAs_copyPush hpos

theorem readsAs_pushdata2 (bytes : Bytes) (high low : UInt8) :
    ReadsAs bytes (takePush 3 (high.toNat * 2 ^ 8 + low.toNat) bytes)
      (sumShifted [(high, 8), (low, 0)] 0 >>= fun len =>
        addUsize 3 len >>= fun stop => copyPush bytes 3 stop) := by
  have hhigh := high.toNat_lt
  have hlow := low.toNat_lt
  refine readsAs_sumShifted addUsize_of_lt (by decide) ?_ (by omega)
  simp [Nat.shiftLeft_eq]

theorem readsAs_pushdata4 (bytes : Bytes) (b3 b2 b1 b0 : UInt8) :
    ReadsAs bytes
      (takePush 5 (b3.toNat * 2 ^ 24 + b2.toNat * 2 ^ 16 + b1.toNat * 2 ^ 8 + b0.toNat) bytes)
      (sumShifted [(b3, 24), (b2, 16), (b1, 8), (b0, 0)] 0 >>= fun len =>
        checkedAddUsize 5 len >>= fun stop => copyPush bytes 5 stop) := by
  have h3 := b3.toNat_lt
  have h2 := b2.toNat_lt
  have h1 := b1.toNat_lt
  have h0 := b0.toNat_lt
  refine readsAs_sumShifted checkedAddUsize_of_lt (by decide) ?_ (by omega)
  simp only [List.map_cons, List.map_nil, List.sum_cons, List.sum_nil, Nat.shiftLeft_eq]
  ring

/-- A round of the literal decoder is `nextPush`: no access leaves the script. -/
theorem compatRound_readsAs (opcode : UInt8) (rest : Bytes) :
    ReadsAs (opcode :: rest) (nextPush opcode rest) (compatRound (opcode :: rest)) := by
  have hlength : 1 ≤ (opcode :: rest).length := Nat.succ_le_succ (Nat.zero_le _)
  refine ReadsAs.ite Iff.rfl (fun _ => .push Nat.one_pos hlength) fun hzero => ?_
  have hone : 1 ≤ opcode := by
    rw [UInt8.le_iff_toNat_le]
    exact Nat.one_le_iff_ne_zero.mpr fun h => hzero (UInt8.toNat_inj.mp h)
  refine ReadsAs.ite Iff.rfl (fun hnumber => ?_) fun _ => ?_
  · rw [subByte_of_le (UInt8.le_trans (by decide) hnumber.1)]
    exact .push Nat.one_pos hlength
  refine ReadsAs.ite (and_iff_right hone) (fun _ => ?_) fun _ => ?_
  · rw [addUsize_toNat 1 (by decide)]
    exact readsAs_copyPush Nat.one_pos
  refine ReadsAs.ite Iff.rfl (fun _ => ?_) fun _ => ?_
  · refine ReadsAs.ite Iff.rfl (fun _ => .refused) fun hlong => ?_
    rw [index_getD hlong (by decide : 1 < 2)]
    rw [ok_bind, addUsize_toNat 2 (by decide)]
    exact readsAs_copyPush Nat.two_pos
  refine ReadsAs.ite Iff.rfl (fun _ => ?_) fun _ => ?_
  · refine ReadsAs.ite Iff.rfl (fun _ => .refused) fun hlong => ?_
    rw [index_getD hlong (by decide : 1 < 3), index_getD hlong (by decide : 0 < 3)]
    dsimp only
    rw [ok_bind, ok_bind]
    exact readsAs_pushdata2 _ _ _
  refine ReadsAs.ite Iff.rfl (fun _ => ?_) fun _ => .refused
  refine ReadsAs.ite Iff.rfl (fun _ => .refused) fun hlong => ?_
  rw [index_getD hlong (by decide : 3 < 5), index_getD hlong (by decide : 2 < 5),
    index_getD hlong (by decide : 1 < 5), index_getD hlong (by decide : 0 < 5)]
  dsimp only
  rw [ok_bind, ok_bind, ok_bind, ok_bind]
  exact readsAs_pushdata4 _ _ _ _ _

theorem ReadsAs.bounds {next : Option (Bytes × Bytes)} {push : Bytes} {used : ℕ}
    (hreads : ReadsAs bytes next (.ok (push, used))) :
    0 < used ∧ used ≤ bytes.length ∧ next = some (push, bytes.drop used) := by
  cases hreads with
  | push hpos hle => exact ⟨hpos, hle, rfl⟩

theorem compatRound_eq_ok {bytes push : Bytes} {used : ℕ} (hround : compatRound bytes = .ok (push, used)) :
    0 < used ∧ used ≤ bytes.length := by
  cases bytes with
  | nil => cases hround
  | cons opcode rest =>
      have hreads := compatRound_readsAs opcode rest
      rw [hround] at hreads
      exact ⟨hreads.bounds.1, hreads.bounds.2.1⟩

theorem compatRound_advances : Advances compatRound where
  settles := by
    intro bytes hbytes
    cases bytes with
    | nil => exact absurd rfl hbytes
    | cons opcode rest => exact (compatRound_readsAs opcode rest).settles
  pos := fun hround => (compatRound_eq_ok hround).1
  le := fun hround => (compatRound_eq_ok hround).2

/-! ### The strict rounds -/

theorem strictHeader_settles (bytes : Bytes) (opcode : UInt8) : Settles (strictHeader bytes opcode) := by
  unfold strictHeader
  split
  next => exact settles_ok _
  split
  next => exact settles_ok _
  split
  next => exact (get_settles _ _).bind fun _ _ => settles_ok _
  split
  next => exact (get_settles _ _).bind fun _ _ => (get_settles _ _).bind fun _ _ => settles_ok _
  split
  next =>
    exact (get_settles _ _).bind fun _ _ => (get_settles _ _).bind fun _ _ =>
      (get_settles _ _).bind fun _ _ => (get_settles _ _).bind fun _ _ => settles_ok _
  next => exact settles_refused

/-- The bytes of a header decide it. -/
theorem strictHeader_take {opcode : UInt8} {header len n : ℕ}
    (hheader : strictHeader bytes opcode = .ok (header, len)) (hn : header ≤ n) :
    strictHeader (bytes.take n) opcode = .ok (header, len) := by
  unfold strictHeader at hheader ⊢
  split
  next h => rwa [if_pos h] at hheader
  next h =>
    rw [if_neg h] at hheader
    split
    next h => rwa [if_pos h] at hheader
    next h =>
      rw [if_neg h] at hheader
      split
      next h =>
        rw [if_pos h] at hheader
        obtain ⟨b1, h1, hlen⟩ := bind_eq_ok.mp hheader
        cases hlen
        rwa [get_take (by omega)]
      next h =>
        rw [if_neg h] at hheader
        split
        next h =>
          rw [if_pos h] at hheader
          obtain ⟨b1, h1, h⟩ := bind_eq_ok.mp hheader
          obtain ⟨b2, h2, hlen⟩ := bind_eq_ok.mp h
          cases hlen
          rwa [get_take (by omega), get_take (by omega)]
        next h =>
          rw [if_neg h] at hheader
          split
          next h =>
            rw [if_pos h] at hheader
            obtain ⟨b1, h1, h⟩ := bind_eq_ok.mp hheader
            obtain ⟨b2, h2, h⟩ := bind_eq_ok.mp h
            obtain ⟨b3, h3, h⟩ := bind_eq_ok.mp h
            obtain ⟨b4, h4, hlen⟩ := bind_eq_ok.mp h
            cases hlen
            rwa [get_take (by omega), get_take (by omega), get_take (by omega), get_take (by omega)]
          next h => rwa [if_neg h] at hheader

theorem strictHeader_pos {opcode : UInt8} (hheader : strictHeader bytes opcode = .ok (header, len)) :
    0 < header := by
  unfold strictHeader at hheader
  split at hheader
  next =>
    cases hheader
    decide
  split at hheader
  next =>
    cases hheader
    decide
  split at hheader
  next =>
    obtain ⟨_, _, hlen⟩ := bind_eq_ok.mp hheader
    cases hlen
    decide
  split at hheader
  next =>
    obtain ⟨_, _, h⟩ := bind_eq_ok.mp hheader
    obtain ⟨_, _, hlen⟩ := bind_eq_ok.mp h
    cases hlen
    decide
  split at hheader
  next =>
    obtain ⟨_, _, h⟩ := bind_eq_ok.mp hheader
    obtain ⟨_, _, h⟩ := bind_eq_ok.mp h
    obtain ⟨_, _, h⟩ := bind_eq_ok.mp h
    obtain ⟨_, _, hlen⟩ := bind_eq_ok.mp h
    cases hlen
    decide
  next => cases hheader

theorem strictRound_settles (bytes : Bytes) : Settles (strictRound bytes) := by
  refine (get_settles _ _).bind fun opcode _ => ?_
  split
  next hnumber =>
    rw [subByte_of_le (UInt8.le_trans (by decide) hnumber.1)]
    exact settles_ok _
  next =>
    exact (strictHeader_settles _ _).bind fun header _ => (checkedAddUsize_settles _ _).bind fun stop _ =>
      (getSlice_settles _ _ _).bind fun push _ => settles_ok _

/-- A round uses at least a byte, and the bytes it uses decide it. -/
theorem strictRound_eq_ok {bytes push : Bytes} {used : ℕ} (hround : strictRound bytes = .ok (push, used)) :
    0 < used ∧ used ≤ bytes.length ∧ strictRound (bytes.take used) = .ok (push, used) := by
  obtain ⟨opcode, hopcode, h⟩ := bind_eq_ok.mp hround
  have hfirst : 1 ≤ bytes.length := by
    obtain ⟨hlt, _⟩ := List.getElem?_eq_some_iff.mp (get_eq_ok.mp hopcode)
    exact hlt
  have hround_take : 0 < used → strictRound (bytes.take used) =
      (if 81 ≤ opcode ∧ opcode ≤ 96 then subByte opcode 80 >>= fun number => .ok ([number], 1)
      else strictHeader (bytes.take used) opcode >>= fun header =>
        checkedAddUsize header.1 header.2 >>= fun stop =>
          getSlice (bytes.take used) header.1 stop >>= fun push => .ok (push, stop)) := by
    intro hused
    rw [strictRound, get_take hused, hopcode]
    rfl
  split at h
  next hnumber =>
    obtain ⟨number, hsub, h⟩ := bind_eq_ok.mp h
    cases h
    refine ⟨Nat.one_pos, hfirst, ?_⟩
    rw [hround_take Nat.one_pos, if_pos hnumber, hsub]
    rfl
  next hnumber =>
    obtain ⟨⟨header, len⟩, hheader, h⟩ := bind_eq_ok.mp h
    obtain ⟨stop, hstop, h⟩ := bind_eq_ok.mp h
    obtain ⟨part, hpart, h⟩ := bind_eq_ok.mp h
    cases h
    obtain ⟨⟨hle, hlong⟩, hpush⟩ := getSlice_eq_ok.mp hpart
    have hused : 0 < used := Nat.lt_of_lt_of_le (strictHeader_pos hheader) hle
    refine ⟨hused, hlong, ?_⟩
    rw [hround_take hused, if_neg hnumber, strictHeader_take hheader hle, ok_bind, hstop, ok_bind]
    have hshort : (bytes.take used).length = used := List.length_take_of_le hlong
    have hpart' : getSlice (bytes.take used) header used = .ok push := by
      refine getSlice_eq_ok.mpr ⟨⟨hle, Nat.le_of_eq hshort.symm⟩, ?_⟩
      rw [List.drop_take, List.take_take, Nat.min_self, hpush]
    rw [hpart']
    rfl

theorem strictRound_advances : Advances strictRound where
  settles := fun bytes _ => strictRound_settles bytes
  pos := fun hround => (strictRound_eq_ok hround).1
  le := fun hround => (strictRound_eq_ok hround).2.1

/-- The part of a strict round behind its header. -/
theorem readsAs_getSlice (hpos : 0 < header) (hlt : header + len < 2 ^ 64) :
    ReadsAs bytes (takePush header len bytes)
      (checkedAddUsize header len >>= fun stop =>
        getSlice bytes header stop >>= fun push => .ok (push, stop)) := by
  rw [checkedAddUsize_of_lt hlt, ok_bind, copyPush_eq_getSlice]
  exact readsAs_copyPush hpos

theorem strictRound_of_header {opcode : UInt8} {rest : Bytes} (hnumber : ¬(81 ≤ opcode ∧ opcode ≤ 96)) :
    strictRound (opcode :: rest) =
      (strictHeader (opcode :: rest) opcode >>= fun header =>
        checkedAddUsize header.1 header.2 >>= fun stop =>
          getSlice (opcode :: rest) header.1 stop >>= fun push => .ok (push, stop)) := by
  change (if _ then _ else _) = _
  rw [if_neg hnumber]

/-- Away from PUSHDATA2 and PUSHDATA4 a strict round is `nextPush` too. -/
theorem strictRound_readsAs {opcode : UInt8} {rest : Bytes} (h77 : opcode ≠ 77) (h78 : opcode ≠ 78) :
    ReadsAs (opcode :: rest) (nextPush opcode rest) (strictRound (opcode :: rest)) := by
  have hbyte := opcode.toNat_lt
  have hlength : 1 ≤ (opcode :: rest).length := Nat.succ_le_succ (Nat.zero_le _)
  by_cases hzero : opcode = 0
  · cases hzero
    have hpush := @readsAs_getSlice (0 :: rest) 1 0 Nat.one_pos (by decide)
    rwa [takePush, if_neg (Nat.not_lt_of_le hlength)] at hpush
  · have hone : 1 ≤ opcode := by
      rw [UInt8.le_iff_toNat_le]
      exact Nat.one_le_iff_ne_zero.mpr fun h => hzero (UInt8.toNat_inj.mp h)
    rw [nextPush, if_neg hzero]
    by_cases hnumber : 81 ≤ opcode ∧ opcode ≤ 96
    · rw [if_pos hnumber]
      change ReadsAs _ _ (if _ then _ else _)
      rw [if_pos hnumber, subByte_of_le (UInt8.le_trans (by decide) hnumber.1)]
      exact .push Nat.one_pos hlength
    · rw [if_neg hnumber, strictRound_of_header hnumber, strictHeader, if_neg hzero]
      refine ReadsAs.bind_ite (and_iff_right hone) (fun _ => ?_) fun _ => ?_
      · exact readsAs_getSlice Nat.one_pos (by omega)
      refine ReadsAs.bind_ite Iff.rfl (fun _ => ?_) fun _ => ?_
      · by_cases hshort : (opcode :: rest).length < 2
        · rw [if_pos hshort, get_of_le (Nat.le_of_lt_succ hshort)]
          exact .refused
        · rw [if_neg hshort, get_of_lt (Nat.le_of_not_lt hshort) 0]
          have hlen : 2 + ((opcode :: rest).getD 1 0).toNat < 2 ^ 64 :=
            Nat.lt_of_lt_of_le (Nat.add_lt_add_left (UInt8.toNat_lt _) 2) (by decide)
          exact readsAs_getSlice Nat.two_pos hlen
      rw [if_neg h77, if_neg h77, if_neg h78, if_neg h78]
      exact .refused

/-! ### The two decoders -/

/-- The bytes that are left at each opcode the decoder of the index meets. -/
def compatPositions (script : Script) : List Bytes := positions compatRound script.length script

/-- The ranges of a script that the strict decoder takes a push from. -/
def strictRanges (script : Script) : List Bytes := ranges strictRound script.length script

theorem decodePushDatasStrict_single {range push : Bytes}
    (hround : strictRound range = .ok (push, range.length)) :
    decodePushDatasStrict range = .ok [push] :=
  readAll_single strictRound_advances hround (Nat.le_refl _)

/-- What a round uses is read as its push alone. -/
theorem decodePushDatasStrict_range {bytes push : Bytes} {used : ℕ}
    (hround : strictRound bytes = .ok (push, used)) :
    decodePushDatasStrict (bytes.take used) = .ok [push] := by
  obtain ⟨_, hle, hrange⟩ := strictRound_eq_ok hround
  have hlength : (bytes.take used).length = used := List.length_take_of_le hle
  exact decodePushDatasStrict_single (by rwa [hlength])

/-- Where the decoder of the index meets no PUSHDATA2 and no PUSHDATA4, the strict decoder has the same
result; both end without a panic on every script; and the ranges the strict decoder takes its pushes from,
each of which it reads as that push alone, make up the script. -/
theorem pushDecoders_agree (script : Script) :
    ((∀ bytes ∈ compatPositions script, bytes.head? ≠ some 77 ∧ bytes.head? ≠ some 78) →
        decodePushDatasStrict script = decodePushDatas script) ∧
      (Settles (decodePushDatas script) ∧ Settles (decodePushDatasStrict script)) ∧
      ∀ pushes, decodePushDatasStrict script = .ok pushes →
        (strictRanges script).flatten = script ∧
          List.Forall₂ (fun range push => decodePushDatasStrict range = .ok [push])
            (strictRanges script) pushes := by
  refine ⟨?_, ⟨?_, ?_⟩, ?_⟩
  · intro hquirk
    refine readAll_congr compatRound_advances strictRound_advances fun opcode rest hmet => ?_
    obtain ⟨h77, h78⟩ := hquirk _ hmet
    exact (strictRound_readsAs (fun h => h77 (congrArg some h)) fun h => h78 (congrArg some h)).eq
      (compatRound_readsAs opcode rest) rfl
  · exact readAll_settles compatRound_advances (Nat.le_refl _)
  · exact readAll_settles strictRound_advances (Nat.le_refl _)
  · intro pushes hpushes
    refine ⟨flatten_ranges strictRound_advances hpushes, ?_⟩
    obtain ⟨more, hmore, hreads⟩ :=
      forall₂_ranges (R := fun range push => decodePushDatasStrict range = .ok [push])
        strictRound_advances decodePushDatasStrict_range hpushes
    rw [List.nil_append] at hmore
    rwa [hmore]

end OrdDogecoin.Inscriptions.InscriptionParser
