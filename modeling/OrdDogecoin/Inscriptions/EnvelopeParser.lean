/-
Module: OrdDogecoin.Inscriptions.EnvelopeParser
Purpose: `InscriptionParser::parse_with` under any push decoder, with every access and subtraction that
  could panic.  It never panics; a complete outcome stays under longer lists; a partial one goes back to
  every first part of the list, whose body starts the body of whatever completes it; and one script alone
  is complete exactly when its pieces are counted down to zero.
Trusted boundary: none
Main exports: PushDecoder, parseWith_eq, parseWith_stable
-/
import OrdDogecoin.Inscriptions.PushDecoders

namespace OrdDogecoin.Inscriptions.InscriptionParser

open Chain Results Slices

/-! ### Push decoders -/

/-- `PushDecoder`: a decoder returns on every script. -/
structure PushDecoder where
  decode : Script → Run (List Bytes)
  settles : ∀ script, Settles (decode script)

/-- The result of a call, as an `Option`. -/
def PushDecoder.call (decoder : PushDecoder) (script : Script) : Run (Option (List Bytes)) :=
  match decoder.decode script with
  | .ok pushes => .ok (some pushes)
  | .error .refused => .ok none
  | .error stop => .error stop

/-! ### Numbers -/

/-- `a + b` in `u64`. -/
def addU64 (a b : ℕ) : Run ℕ := if a + b < 2 ^ 64 then .ok (a + b) else .error .panicked

/-- `a - b` in `u64`. -/
def subU64 (a b : ℕ) : Run ℕ := if b ≤ a then .ok (a - b) else .error .panicked

/-- `a << shift` in `u64`. -/
def shlU64 (a shift : ℕ) : Run ℕ :=
  if shift < 64 then .ok ((a <<< shift) % 2 ^ 64) else .error .panicked

/-- The loop of `push_data_to_number` over the bytes that are left. -/
def sumBytes : List UInt8 → ℕ → ℕ → Run ℕ
  | [], n, _ => .ok n
  | byte :: bytes, n, m => do
      let shifted ← shlU64 byte.toNat m
      let n ← addU64 n shifted
      sumBytes bytes n (m + 8)

def pushDataToNumber (data : Bytes) : Run (Option ℕ) :=
  if data.length = 0 then .ok (some 0)
  else if 8 < data.length then .ok none
  else do
    let n ← sumBytes data 0 0
    .ok (some n)

/-! ### The parser -/

/-- Where the parser is: the pieces that are left to read, the pushes of the current script, the body. -/
structure Cursor where
  npieces : ℕ
  pushDatas : List Bytes
  body : Bytes
deriving DecidableEq, Repr

/-- Whether the number of the first push continues the countdown. -/
def continues (npieces : ℕ) (pushDatas : List Bytes) : Run Bool := do
  let first ← index pushDatas 0
  let next ← pushDataToNumber first
  match next with
  | none => .ok false
  | some next => do
      let expected ← subU64 npieces 1
      .ok (next = expected)

/-- The loop over the chunks of one script. -/
def readChunks : ℕ → Cursor → Run Cursor
  | 0, _ => .error .unfinished
  | fuel + 1, cursor =>
      if cursor.npieces = 0 then .ok cursor
      else if cursor.pushDatas.length < 2 then .ok cursor
      else do
        let goesOn ← continues cursor.npieces cursor.pushDatas
        if goesOn then do
          let piece ← index cursor.pushDatas 1
          let rest ← sliceFrom cursor.pushDatas 2
          let left ← subU64 cursor.npieces 1
          readChunks fuel { npieces := left, pushDatas := rest, body := cursor.body ++ piece }
        else .ok cursor

/-- The loop over the scripts, from the current one on, with the body at the end. -/
def readScripts (decoder : PushDecoder) (contentType : Bytes) :
    List Script → Cursor → Run (ParsedInscription × Bytes)
  | [], _ => .error .panicked
  | _ :: scripts, cursor => do
      let cursor ← readChunks (cursor.pushDatas.length + 1) cursor
      if cursor.npieces = 0 then
        .ok (.complete
          { body := some cursor.body
            contentType := some contentType
            delegate := delegateField cursor.pushDatas }, cursor.body)
      else
        match scripts with
        | [] => .ok (.part, cursor.body)
        | script :: scripts => do
            let called ← decoder.call script
            match called with
            | none => .ok (.none, cursor.body)
            | some pushes =>
                if pushes.length < 2 then .ok (.none, cursor.body)
                else do
                  let goesOn ← continues cursor.npieces pushes
                  if goesOn then
                    readScripts decoder contentType (script :: scripts) { cursor with pushDatas := pushes }
                  else .ok (.none, cursor.body)

/-- `parse_with` with the body that was assembled when the outcome was decided. -/
def parseWithBody (decoder : PushDecoder) : List Script → Run (ParsedInscription × Bytes)
  | [] => .ok (.none, [])
  | script :: scripts => do
      let called ← decoder.call script
      match called with
      | none => .ok (.none, [])
      | some pushes =>
          if pushes.length < 3 then .ok (.none, [])
          else do
            let protocol ← index pushes 0
            if protocol ≠ protocolId then .ok (.none, [])
            else do
              let count ← index pushes 1
              let npieces ← pushDataToNumber count
              match npieces with
              | none => .ok (.none, [])
              | some npieces =>
                  if npieces = 0 then .ok (.none, [])
                  else do
                    let contentType ← index pushes 2
                    let rest ← sliceFrom pushes 3
                    readScripts decoder contentType (script :: scripts)
                      { npieces := npieces, pushDatas := rest, body := [] }

def parseWith (decoder : PushDecoder) (scripts : List Script) : Run (ParsedInscription × ℕ) := do
  let (parsed, body) ← parseWithBody decoder scripts
  .ok (parsed, body.length)

/-! ### Numbers and chunks of the literal parser -/

/-- Eight bytes and fewer stay in `u64`. -/
theorem sumBytes_eq {bytes : List UInt8} :
    ∀ {n m : ℕ}, m + 8 * bytes.length ≤ 64 → n < 2 ^ m →
      sumBytes bytes n m = .ok (n + 2 ^ m * LittleEndian.ofLeBytes bytes) := by
  induction bytes with
  | nil => exact fun _ _ => rfl
  | cons byte bytes ih =>
      intro n m hroom hn
      have hbyte := byte.toNat_lt
      rw [List.length_cons] at hroom
      have hpow : 2 ^ m * 2 ^ 8 ≤ 2 ^ 64 := by
        rw [← Nat.pow_add]
        exact Nat.pow_le_pow_right (by decide) (by omega)
      have hshift : byte.toNat <<< m = 2 ^ m * byte.toNat := by rw [Nat.shiftLeft_eq, Nat.mul_comm]
      have hsum : n + 2 ^ m * byte.toNat < 2 ^ (m + 8) := by
        rw [Nat.pow_add]
        have hle : 2 ^ m * byte.toNat ≤ 2 ^ m * 255 := Nat.mul_le_mul_left _ (by omega)
        omega
      have hshl : shlU64 byte.toNat m = .ok (2 ^ m * byte.toNat) := by
        rw [shlU64, if_pos (by omega), hshift, Nat.mod_eq_of_lt]
        have hle : 2 ^ m * byte.toNat ≤ 2 ^ m * 255 := Nat.mul_le_mul_left _ (by omega)
        have hpos : 0 < 2 ^ m := Nat.two_pow_pos m
        omega
      have hadd : addU64 n (2 ^ m * byte.toNat) = .ok (n + 2 ^ m * byte.toNat) :=
        if_pos (Nat.lt_of_lt_of_le hsum (by rwa [Nat.pow_add]))
      rw [sumBytes, hshl, ok_bind, hadd, ok_bind, ih (by omega) hsum, LittleEndian.ofLeBytes, Nat.pow_add]
      congr 1
      ring

theorem pushDataToNumber_eq (data : Bytes) :
    pushDataToNumber data = .ok (Inscriptions.pushDataToNumber data) := by
  unfold pushDataToNumber Inscriptions.pushDataToNumber
  split
  next hempty =>
    cases List.eq_nil_of_length_eq_zero hempty
    rfl
  split
  next => rfl
  next hshort =>
    rw [sumBytes_eq (by omega) (by decide), ok_bind, Nat.zero_add, Nat.pow_zero, Nat.one_mul]

theorem PushDecoder.call_eq (decoder : PushDecoder) (script : Script) :
    decoder.call script = .ok (toOption (decoder.decode script)) := by
  unfold PushDecoder.call
  cases hdecode : decoder.decode script with
  | ok pushes => rfl
  | error stop =>
      cases decoder.settles script stop hdecode
      rfl

theorem subU64_succ (n : ℕ) : subU64 (n + 1) 1 = .ok n := if_pos (Nat.succ_le_succ (Nat.zero_le _))

theorem continues_eq {left : ℕ} {first : Bytes} {pushDatas : List Bytes} :
    continues (left + 1) (first :: pushDatas) =
      .ok (decide (Inscriptions.pushDataToNumber first = some left)) := by
  have hindex : index (first :: pushDatas) 0 = .ok first := rfl
  rw [continues, hindex, ok_bind, pushDataToNumber_eq, ok_bind]
  cases Inscriptions.pushDataToNumber first with
  | none => rfl
  | some next =>
      rw [subU64_succ]
      exact congrArg Except.ok (decide_eq_decide.mpr (Option.some_inj.symm))

/-- The loop over the chunks is `readPieces`. -/
theorem readChunks_eq {fuel : ℕ} :
    ∀ {npieces : ℕ} {pushDatas : List Bytes} {body : Bytes}, pushDatas.length < fuel →
      readChunks fuel { npieces := npieces, pushDatas := pushDatas, body := body } =
        .ok
          { npieces := (readPieces npieces pushDatas body).1
            pushDatas := (readPieces npieces pushDatas body).2.1
            body := (readPieces npieces pushDatas body).2.2 } := by
  induction fuel with
  | zero => exact fun h => absurd h (Nat.not_lt_zero _)
  | succ fuel ih =>
      intro npieces pushDatas body hfuel
      cases npieces with
      | zero => rfl
      | succ left =>
          match pushDatas with
          | [] => rfl
          | [_] => rfl
          | first :: piece :: rest =>
              have hlong : ¬(first :: piece :: rest).length < 2 := by simp
              rw [readChunks, if_neg (Nat.succ_ne_zero _), if_neg hlong, continues_eq, ok_bind, readPieces]
              by_cases hnext : Inscriptions.pushDataToNumber first = some left
              · have hshort : rest.length < fuel := by
                  simp only [List.length_cons] at hfuel
                  omega
                have hpiece : index (first :: piece :: rest) 1 = .ok piece := rfl
                have hrest : sliceFrom (first :: piece :: rest) 2 = .ok rest :=
                  sliceFrom_of_le (Nat.le_of_not_lt hlong)
                rw [if_pos (decide_eq_true hnext), if_pos hnext, ← ih hshort]
                dsimp only
                rw [hpiece, ok_bind, hrest, ok_bind, subU64_succ, ok_bind]
              · rw [if_neg (by simpa using hnext), if_neg hnext]

/-! ### The parser without its accesses -/

/-- The loop over the scripts behind the current one, with the body at the end. -/
def piecesBody (pushes : Script → Option (List Bytes)) (contentType : Bytes) :
    List Script → ℕ → List Bytes → Bytes → ParsedInscription × Bytes
  | scripts, npieces, pushDatas, body =>
      match readPieces npieces pushDatas body with
      | (0, fields, body) =>
          (.complete
            { body := some body, contentType := some contentType, delegate := delegateField fields }, body)
      | (left + 1, _, body) =>
          match scripts with
          | [] => (.part, body)
          | script :: scripts =>
              match pushes script with
              | some (index :: piece :: rest) =>
                  if Inscriptions.pushDataToNumber index = some left then
                    piecesBody pushes contentType scripts (left + 1) (index :: piece :: rest) body
                  else (.none, body)
              | _ => (.none, body)

/-- The parser over some scripts, with the body at the end. -/
def parseBody (pushes : Script → Option (List Bytes)) : List Script → ParsedInscription × Bytes
  | [] => (.none, [])
  | script :: scripts =>
      match pushes script with
      | some (protocol :: count :: contentType :: rest) =>
          if protocol ≠ protocolId then (.none, [])
          else
            match Inscriptions.pushDataToNumber count with
            | some (left + 1) => piecesBody pushes contentType scripts (left + 1) rest []
            | _ => (.none, [])
      | _ => (.none, [])

theorem readScripts_eq (decoder : PushDecoder) (contentType : Bytes) {scripts : List Script} :
    ∀ {script : Script} {npieces : ℕ} {pushDatas : List Bytes} {body : Bytes},
      readScripts decoder contentType (script :: scripts)
          { npieces := npieces, pushDatas := pushDatas, body := body } =
        .ok (piecesBody (fun script => toOption (decoder.decode script)) contentType scripts npieces
          pushDatas body) := by
  induction scripts with
  | nil =>
      intro script npieces pushDatas body
      rw [readScripts, readChunks_eq (Nat.lt_succ_self _), ok_bind, piecesBody]
      cases hread : readPieces npieces pushDatas body with
      | mk left after =>
          cases left with
          | zero => rfl
          | succ left => rfl
  | cons next scripts ih =>
      intro script npieces pushDatas body
      rw [readScripts, readChunks_eq (Nat.lt_succ_self _), ok_bind, piecesBody]
      cases hread : readPieces npieces pushDatas body with
      | mk left after =>
          cases left with
          | zero => rfl
          | succ left =>
              dsimp only
              rw [if_neg (Nat.succ_ne_zero _), decoder.call_eq, ok_bind]
              match toOption (decoder.decode next) with
              | none => rfl
              | some [] => rfl
              | some [_] => rfl
              | some (first :: piece :: rest) =>
                  have hlong : ¬(first :: piece :: rest).length < 2 := by simp
                  dsimp only
                  rw [if_neg hlong, continues_eq, ok_bind, ih]
                  by_cases hnext : Inscriptions.pushDataToNumber first = some left
                  · rw [if_pos (decide_eq_true hnext), if_pos hnext]
                  · rw [if_neg (by simpa using hnext), if_neg hnext]

/-- The literal parser returns on every list of scripts. -/
theorem parseWithBody_eq (decoder : PushDecoder) (scripts : List Script) :
    parseWithBody decoder scripts =
      .ok (parseBody (fun script => toOption (decoder.decode script)) scripts) := by
  cases scripts with
  | nil => rfl
  | cons script scripts =>
      rw [parseWithBody, parseBody, decoder.call_eq, ok_bind]
      match toOption (decoder.decode script) with
      | none => rfl
      | some [] => rfl
      | some [_] => rfl
      | some [_, _] => rfl
      | some (protocol :: count :: contentType :: rest) =>
          have hlong : ¬(protocol :: count :: contentType :: rest).length < 3 := by simp
          have hprotocol : index (protocol :: count :: contentType :: rest) 0 = .ok protocol := rfl
          have hcount : index (protocol :: count :: contentType :: rest) 1 = .ok count := rfl
          have htype : index (protocol :: count :: contentType :: rest) 2 = .ok contentType := rfl
          have hrest : sliceFrom (protocol :: count :: contentType :: rest) 3 = .ok rest :=
            sliceFrom_of_le (Nat.le_of_not_lt hlong)
          dsimp only
          rw [if_neg hlong, hprotocol, ok_bind]
          split
          next => rfl
          next =>
            rw [hcount, ok_bind, pushDataToNumber_eq, ok_bind]
            match Inscriptions.pushDataToNumber count with
            | none => rfl
            | some 0 => rfl
            | some (left + 1) =>
                dsimp only
                rw [if_neg (Nat.succ_ne_zero _), htype, ok_bind, hrest, ok_bind, readScripts_eq]

/-! ### Stability -/

section Stability

variable {pushes : Script → Option (List Bytes)} {last : Bytes}

theorem piecesBody_complete_append {contentType : Bytes} {inscription : Inscription}
    {scripts : List Script} (more : List Script) :
    ∀ {npieces : ℕ} {pushDatas : List Bytes} {body : Bytes},
      piecesBody pushes contentType scripts npieces pushDatas body = (.complete inscription, last) →
      piecesBody pushes contentType (scripts ++ more) npieces pushDatas body =
        (.complete inscription, last) := by
  induction scripts with
  | nil =>
      intro npieces pushDatas body hparse
      rw [piecesBody] at hparse ⊢
      split at hparse
      next => exact hparse
      next => cases hparse
  | cons script scripts ih =>
      intro npieces pushDatas body hparse
      rw [piecesBody] at hparse
      rw [List.cons_append, piecesBody]
      split at hparse
      next => exact hparse
      next =>
        dsimp only at hparse ⊢
        split at hparse
        next =>
          split at hparse
          next hnext =>
            rw [if_pos hnext]
            exact ih hparse
          next => cases hparse
        next => cases hparse

/-- The pieces that are read at once start the body of whatever completes them. -/
theorem piecesBody_complete_body {contentType : Bytes} {inscription : Inscription}
    {scripts : List Script} :
    ∀ {npieces : ℕ} {pushDatas : List Bytes} {body : Bytes},
      piecesBody pushes contentType scripts npieces pushDatas body = (.complete inscription, last) →
      inscription.body = some last ∧ (readPieces npieces pushDatas body).2.2 <+: last := by
  induction scripts with
  | nil =>
      intro npieces pushDatas body hparse
      rw [piecesBody] at hparse
      split at hparse
      next hread =>
        cases hparse
        rw [hread]
        exact ⟨rfl, List.prefix_refl _⟩
      next => cases hparse
  | cons script scripts ih =>
      intro npieces pushDatas body hparse
      rw [piecesBody] at hparse
      split at hparse
      next hread =>
        cases hparse
        rw [hread]
        exact ⟨rfl, List.prefix_refl _⟩
      next left rest body' hread =>
        dsimp only at hparse
        split at hparse
        next index piece rest' _ =>
          split at hparse
          next =>
            obtain ⟨hbody, hstart⟩ := ih hparse
            obtain ⟨added, hadded⟩ := readPieces_append (left + 1) (index :: piece :: rest') body'
            rw [hread]
            exact ⟨hbody, (List.prefix_append _ added).trans (hadded ▸ hstart)⟩
          next => cases hparse
        next => cases hparse

/-- A partial outcome goes back to every first part of the list, and the body there starts the body of
whatever completes it. -/
theorem piecesBody_part {contentType : Bytes} {front : List Script} :
    ∀ {scripts : List Script} {npieces : ℕ} {pushDatas : List Bytes} {body : Bytes}, front <+: scripts →
      piecesBody pushes contentType scripts npieces pushDatas body = (.part, last) →
      ∃ body', piecesBody pushes contentType front npieces pushDatas body = (.part, body') ∧
        ∀ {more inscription total},
          piecesBody pushes contentType (front ++ more) npieces pushDatas body =
              (.complete inscription, total) →
            body' <+: total := by
  induction front with
  | nil =>
      intro scripts npieces pushDatas body _ hparse
      rw [piecesBody] at hparse
      split at hparse
      next => cases hparse
      next left rest body' hread =>
        refine ⟨body', by rw [piecesBody, hread], fun hcomplete => ?_⟩
        have hstart := (piecesBody_complete_body hcomplete).2
        rwa [hread] at hstart
  | cons script front ih =>
      intro scripts npieces pushDatas body hfront hparse
      obtain ⟨after, rfl⟩ := hfront
      rw [List.cons_append, piecesBody] at hparse
      split at hparse
      next => cases hparse
      next left rest body' hread =>
        dsimp only at hparse
        split at hparse
        next index piece rest' hpushes =>
          split at hparse
          next hnext =>
            obtain ⟨body'', hpart, hbody⟩ := ih (List.prefix_append front after) hparse
            have hnextScript : ∀ more, piecesBody pushes contentType (script :: more) npieces pushDatas body =
                piecesBody pushes contentType more (left + 1) (index :: piece :: rest') body' := by
              intro more
              rw [piecesBody, hread]
              dsimp only
              rw [hpushes]
              exact if_pos hnext
            refine ⟨body'', (hnextScript front).trans hpart, ?_⟩
            intro more inscription total hcomplete
            exact hbody ((hnextScript (front ++ more)).symm.trans hcomplete)
          next => cases hparse
        next => cases hparse

theorem parseBody_complete_append {scripts : List Script} {inscription : Inscription}
    (more : List Script) (hparse : parseBody pushes scripts = (.complete inscription, last)) :
    parseBody pushes (scripts ++ more) = (.complete inscription, last) ∧
      inscription.body = some last := by
  cases scripts with
  | nil => cases hparse
  | cons script scripts =>
      rw [parseBody] at hparse
      rw [List.cons_append, parseBody]
      split at hparse
      next =>
        split at hparse
        next => cases hparse
        next hprotocol =>
          split at hparse
          next =>
            rw [if_neg hprotocol]
            exact ⟨piecesBody_complete_append more hparse, (piecesBody_complete_body hparse).1⟩
          next => cases hparse
      next => cases hparse

theorem parseBody_part {scripts front : List Script}
    (hparse : parseBody pushes scripts = (.part, last)) (hfront : front <+: scripts)
    (hne : front ≠ []) :
    ∃ body, parseBody pushes front = (.part, body) ∧
      ∀ {more inscription total},
        parseBody pushes (front ++ more) = (.complete inscription, total) → body <+: total := by
  cases front with
  | nil => exact absurd rfl hne
  | cons script front =>
      obtain ⟨after, rfl⟩ := hfront
      rw [List.cons_append, parseBody] at hparse
      split at hparse
      next protocol count contentType rest hpushes =>
        split at hparse
        next => cases hparse
        next hprotocol =>
          split at hparse
          next left hcount =>
            obtain ⟨body, hpart, hbody⟩ := piecesBody_part (List.prefix_append front after) hparse
            have hall : ∀ more, parseBody pushes (script :: more) =
                piecesBody pushes contentType more (left + 1) rest [] := by
              intro more
              rw [parseBody, hpushes]
              dsimp only
              rw [if_neg hprotocol, hcount]
            refine ⟨body, (hall front).trans hpart, ?_⟩
            intro more inscription total hcomplete
            exact hbody ((hall (front ++ more)).symm.trans hcomplete)
          next => cases hparse
      next => cases hparse

end Stability

/-! ### One script -/

def piecePushes (pieces : List (Bytes × Bytes)) : List Bytes := pieces.flatMap fun piece => [piece.1, piece.2]

/-- The pieces carry the numbers from one below their count down to zero. -/
def CountedDown (pieces : List (Bytes × Bytes)) : Prop :=
  pieces.map (fun piece => Inscriptions.pushDataToNumber piece.1) =
    (List.range pieces.length).reverse.map some

theorem countedDown_cons {piece : Bytes × Bytes} {pieces : List (Bytes × Bytes)} :
    CountedDown (piece :: pieces) ↔
      Inscriptions.pushDataToNumber piece.1 = some pieces.length ∧ CountedDown pieces := by
  rw [CountedDown, CountedDown, List.map_cons, List.length_cons, List.range_succ, List.reverse_append]
  exact List.cons_eq_cons

/-- All pieces are read exactly when they stand at the head of the pushes, counted down. -/
theorem readPieces_eq_zero_iff {npieces : ℕ} {fields : List Bytes} {last : Bytes} :
    ∀ {pushDatas : List Bytes} {body : Bytes},
      readPieces npieces pushDatas body = (0, fields, last) ↔
        ∃ pieces, pushDatas = piecePushes pieces ++ fields ∧ pieces.length = npieces ∧
          CountedDown pieces ∧ last = body ++ (pieces.map Prod.snd).flatten := by
  induction npieces with
  | zero =>
      intro pushDatas body
      constructor
      · intro hread
        cases hread
        exact ⟨[], rfl, rfl, rfl, (List.append_nil _).symm⟩
      · rintro ⟨pieces, rfl, hlength, _, rfl⟩
        cases List.eq_nil_of_length_eq_zero hlength
        simp [readPieces, piecePushes]
  | succ left ih =>
      intro pushDatas body
      constructor
      · intro hread
        rcases pushDatas with _ | ⟨first, _ | ⟨piece, rest⟩⟩
        · cases hread
        · cases hread
        rw [readPieces] at hread
        split at hread
        next hnext =>
          obtain ⟨pieces, rfl, hlength, hdown, rfl⟩ := ih.mp hread
          refine ⟨(first, piece) :: pieces, rfl, congrArg Nat.succ hlength, ?_, ?_⟩
          · exact countedDown_cons.mpr ⟨by rw [hlength]; exact hnext, hdown⟩
          · rw [List.map_cons, List.flatten_cons, List.append_assoc]
        next => cases hread
      · rintro ⟨pieces, rfl, hlength, hdown, rfl⟩
        cases pieces with
        | nil => cases hlength
        | cons piece pieces =>
            obtain ⟨hfirst, hdown⟩ := countedDown_cons.mp hdown
            have hleft : pieces.length = left := Nat.succ.inj hlength
            change readPieces (left + 1) (piece.1 :: piece.2 :: (piecePushes pieces ++ fields)) body = _
            rw [readPieces, if_pos (by rw [hfirst, hleft])]
            refine ih.mpr ⟨pieces, rfl, hleft, hdown, ?_⟩
            rw [List.map_cons, List.flatten_cons, List.append_assoc]

/-- One script is complete exactly when its pieces stand behind the protocol id, their count and the
content type, counted down. -/
theorem parseBody_single_iff {pushes : Script → Option (List Bytes)} {script : Script}
    {inscription : Inscription} :
    (∃ last, parseBody pushes [script] = (.complete inscription, last)) ↔
      ∃ count contentType pieces fields,
        pushes script = some (protocolId :: count :: contentType :: (piecePushes pieces ++ fields)) ∧
          Inscriptions.pushDataToNumber count = some pieces.length ∧ 1 ≤ pieces.length ∧
          CountedDown pieces ∧
          inscription =
            { body := some (pieces.map Prod.snd).flatten
              contentType := some contentType
              delegate := delegateField fields } := by
  constructor
  · rintro ⟨last, hparse⟩
    rw [parseBody] at hparse
    split at hparse
    next protocol count contentType rest hpushes =>
      split at hparse
      next => cases hparse
      next hprotocol =>
        split at hparse
        next left hcount =>
          rw [piecesBody] at hparse
          split at hparse
          next fields body hread =>
            cases hparse
            obtain ⟨pieces, rfl, hlength, hdown, rfl⟩ := readPieces_eq_zero_iff.mp hread
            refine ⟨count, contentType, pieces, fields, ?_, ?_, ?_, hdown, rfl⟩
            · rw [hpushes, not_not.mp hprotocol]
            · rw [hcount, hlength]
            · exact hlength ▸ Nat.succ_le_succ (Nat.zero_le _)
          next => cases hparse
        next => cases hparse
    next => cases hparse
  · rintro ⟨count, contentType, pieces, fields, hpushes, hcount, hone, hdown, rfl⟩
    obtain ⟨left, hleft⟩ := Nat.exists_eq_succ_of_ne_zero (Nat.one_le_iff_ne_zero.mp hone)
    have hread : readPieces (left + 1) (piecePushes pieces ++ fields) [] =
        (0, fields, (pieces.map Prod.snd).flatten) :=
      readPieces_eq_zero_iff.mpr ⟨pieces, rfl, hleft, hdown, rfl⟩
    refine ⟨(pieces.map Prod.snd).flatten, ?_⟩
    rw [parseBody, hpushes]
    dsimp only
    rw [if_neg (not_not.mpr rfl), hcount, hleft]
    dsimp only
    rw [piecesBody, hread]

/-! ### The outcomes of the parser -/

theorem parseWith_eq (decoder : PushDecoder) (scripts : List Script) :
    parseWith decoder scripts =
      .ok (Prod.map id List.length
        (parseBody (fun script => toOption (decoder.decode script)) scripts)) := by
  rw [parseWith, parseWithBody_eq]
  rfl

/-- An outcome of the parser comes with the body it counts. -/
theorem parseWith_eq_ok {decoder : PushDecoder} {scripts : List Script} {parsed : ParsedInscription}
    {length : ℕ} :
    parseWith decoder scripts = .ok (parsed, length) ↔
      ∃ last, parseBody (fun script => toOption (decoder.decode script)) scripts = (parsed, last) ∧
        last.length = length := by
  rw [parseWith_eq]
  generalize parseBody _ scripts = outcome
  obtain ⟨outcome, body⟩ := outcome
  simp [Prod.map]

theorem toOption_eq_some {α : Type} {run : Run α} {value : α} :
    toOption run = some value ↔ run = .ok value := by
  cases run with
  | ok found => simp [toOption]
  | error stop => simp [toOption]

/-- Under any push decoder the parser returns on every list of scripts; a complete outcome stays under
every longer list; a partial one is partial for every first part that is not empty, whose body is no
longer than the body of any list that completes it and starts it; and one script is complete exactly when
its pieces stand behind the protocol id, their count and the content type, counted down to zero. -/
theorem parseWith_stable (decoder : PushDecoder) :
    (∀ scripts, ∃ outcome, parseWith decoder scripts = .ok outcome) ∧
      (∀ scripts more inscription length,
        parseWith decoder scripts = .ok (.complete inscription, length) →
          parseWith decoder (scripts ++ more) = .ok (.complete inscription, length)) ∧
      (∀ scripts length front, parseWith decoder scripts = .ok (.part, length) → front ≠ [] →
        front <+: scripts →
        ∃ body, parseWithBody decoder front = .ok (.part, body) ∧
          parseWith decoder front = .ok (.part, body.length) ∧
          ∀ more inscription total,
            parseWith decoder (front ++ more) = .ok (.complete inscription, total) →
              ∃ whole, inscription.body = some whole ∧ body.length ≤ whole.length ∧ body <+: whole) ∧
      ∀ script inscription,
        (∃ length, parseWith decoder [script] = .ok (.complete inscription, length)) ↔
          ∃ count contentType pieces fields,
            decoder.decode script =
                .ok (protocolId :: count :: contentType :: (piecePushes pieces ++ fields)) ∧
              Inscriptions.pushDataToNumber count = some pieces.length ∧ 1 ≤ pieces.length ∧
              CountedDown pieces ∧
              inscription =
                { body := some (pieces.map Prod.snd).flatten
                  contentType := some contentType
                  delegate := delegateField fields } := by
  refine ⟨fun scripts => ⟨_, parseWith_eq decoder scripts⟩, ?_, ?_, ?_⟩
  · intro scripts more inscription length hparse
    obtain ⟨last, hlast, hlength⟩ := parseWith_eq_ok.mp hparse
    exact parseWith_eq_ok.mpr ⟨last, (parseBody_complete_append more hlast).1, hlength⟩
  · intro scripts length front hparse hne hfront
    obtain ⟨last, hlast, _⟩ := parseWith_eq_ok.mp hparse
    obtain ⟨body, hpart, hbody⟩ := parseBody_part hlast hfront hne
    refine ⟨body, ?_, parseWith_eq_ok.mpr ⟨body, hpart, rfl⟩, ?_⟩
    · rw [parseWithBody_eq, hpart]
    · intro more inscription total hcomplete
      obtain ⟨whole, hwhole, _⟩ := parseWith_eq_ok.mp hcomplete
      exact ⟨whole, (parseBody_complete_append [] hwhole).2, (hbody hwhole).length_le, hbody hwhole⟩
  · intro script inscription
    have hsingle := @parseBody_single_iff (fun script => toOption (decoder.decode script)) script inscription
    simp only [toOption_eq_some] at hsingle
    rw [← hsingle]
    constructor
    · rintro ⟨length, hparse⟩
      obtain ⟨last, hlast, _⟩ := parseWith_eq_ok.mp hparse
      exact ⟨last, hlast⟩
    · rintro ⟨last, hlast⟩
      exact ⟨last.length, parseWith_eq_ok.mpr ⟨last, hlast, rfl⟩⟩

end OrdDogecoin.Inscriptions.InscriptionParser
