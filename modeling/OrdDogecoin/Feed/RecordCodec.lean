/-
Module: OrdDogecoin.Feed.RecordCodec
Purpose: The two binary formats of the Dogemap feed: the rows of the journal, with every slice that could
  panic, and the block cursor.  What is encoded is decoded, and whatever is decoded is the encoding of what
  comes out.
Trusted boundary: none
Main exports: JournalRecord.encode, BlockCursor.encode_decode, feedCodecs_exact
-/
import OrdDogecoin.Lib.FixedCodec
import OrdDogecoin.Feed.Journal

namespace OrdDogecoin.Feed

open Chain Results Slices

/-! ### Fields -/

/-- `Txid::store` and `Txid::load`. -/
def txidCodec : FixedCodec Txid := .le 32

/-- `InscriptionId::store` and `InscriptionId::load`. -/
def inscriptionIdCodec : FixedCodec InscriptionId :=
  (txidCodec.pair (.be 4)).map
    { toFun := fun fields => ⟨fields.1, fields.2⟩
      invFun := fun id => (id.txid, id.index)
      left_inv := fun _ => rfl
      right_inv := fun _ => rfl }

/-- The consensus encoding of an outpoint. -/
def outPointCodec : FixedCodec OutPoint :=
  (txidCodec.pair (.le 4)).map
    { toFun := fun fields => ⟨fields.1, fields.2⟩
      invFun := fun outpoint => (outpoint.txid, outpoint.vout)
      left_inv := fun _ => rfl
      right_inv := fun _ => rfl }

/-- `SatPoint::store` and `SatPoint::load`. -/
def satPointCodec : FixedCodec SatPoint :=
  (outPointCodec.pair (.le 8)).map
    { toFun := fun fields => ⟨fields.1, fields.2⟩
      invFun := fun satpoint => (satpoint.outpoint, satpoint.offset)
      left_inv := fun _ => rfl
      right_inv := fun _ => rfl }

theorem inscriptionIdCodec_inRange {id : InscriptionId} :
    inscriptionIdCodec.InRange id ↔ id.txid < 256 ^ 32 ∧ id.index < 256 ^ 4 := Iff.rfl

theorem satPointCodec_inRange {satpoint : SatPoint} :
    satPointCodec.InRange satpoint ↔
      (satpoint.outpoint.txid < 256 ^ 32 ∧ satpoint.outpoint.vout < 256 ^ 4) ∧
        satpoint.offset < 256 ^ 8 := Iff.rfl

/-! ### Records -/

def journalRecordVersion : UInt8 := 1

def journalFixedBytes : ℕ := 1 + 1 + 1 + 36 + 8 + 44 + 44 + 32 + 4 + 8 + 4

/-- The status byte, the satpoint, the value and the script of a destination. -/
def JournalDestination.parts : JournalDestination → UInt8 × SatPoint × ℕ × Script
  | .assigned satpoint value scriptPubkey => (0, satpoint, value, scriptPubkey)
  | .lost satpoint => (1, satpoint, 0, [])

def JournalKind.byte : JournalKind → UInt8
  | .creation => 0
  | .transfer => 1

/-- `JournalRecord::encode`; a script whose length leaves `u32` panics. -/
def JournalRecord.encode (record : JournalRecord) : Run (List UInt8) :=
  let (status, satpoint, value, script) := record.toDestination.parts
  if script.length < 2 ^ 32 then
    .ok ([journalRecordVersion, record.kind.byte, status] ++
      (inscriptionIdCodec.store record.inscriptionId ++
        ((FixedCodec.be 8).store record.inscriptionNumber ++
          (satPointCodec.store record.fromSatpoint ++
            (satPointCodec.store satpoint ++
              (txidCodec.store record.txid ++
                ((FixedCodec.be 4).store record.txIndex ++
                  ((FixedCodec.be 8).store value ++
                    ((FixedCodec.be 4).store script.length ++ script)))))))))
  else .error .panicked

def kindOfByte (byte : UInt8) : Run JournalKind :=
  if byte = 0 then .ok .creation
  else if byte = 1 then .ok .transfer
  else .error .refused

/-- The destination of a status byte; the row of a lost inscription has no value and no script. -/
def destinationOfStatus (status : UInt8) (satpoint : SatPoint) (value : ℕ) (script : Script) :
    Run JournalDestination :=
  if status = 0 then .ok (.assigned satpoint value script)
  else if status = 1 ∧ value = 0 ∧ script.isEmpty then .ok (.lost satpoint)
  else .error .refused

def JournalRecord.decode (bytes : List UInt8) : Run JournalRecord :=
  if bytes.length < journalFixedBytes then .error .refused
  else do
    let version ← index bytes 0
    if version ≠ journalRecordVersion then .error .refused
    else do
      let (inscriptionId, next) ← inscriptionIdCodec.read bytes 3
      let (inscriptionNumber, next) ← (FixedCodec.be 8).read bytes next
      let (fromSatpoint, next) ← satPointCodec.read bytes next
      let (satpoint, next) ← satPointCodec.read bytes next
      let (txid, next) ← txidCodec.read bytes next
      let (txIndex, next) ← (FixedCodec.be 4).read bytes next
      let (value, next) ← (FixedCodec.be 8).read bytes next
      let (scriptLen, _) ← (FixedCodec.be 4).read bytes next
      let total ← checkedAddUsize journalFixedBytes scriptLen
      if bytes.length ≠ total then .error .refused
      else do
        let script ← sliceFrom bytes journalFixedBytes
        let kindByte ← index bytes 1
        let kind ← kindOfByte kindByte
        let status ← index bytes 2
        let toDestination ← destinationOfStatus status satpoint value script
        .ok { kind, inscriptionId, inscriptionNumber, fromSatpoint, toDestination, txid, txIndex }

/-- The fields are in the range of their types. -/
structure JournalRecord.Fits (record : JournalRecord) : Prop where
  inscriptionId : inscriptionIdCodec.InRange record.inscriptionId
  inscriptionNumber : record.inscriptionNumber < 256 ^ 8
  fromSatpoint : satPointCodec.InRange record.fromSatpoint
  satpoint : satPointCodec.InRange record.toDestination.parts.2.1
  txid : txidCodec.InRange record.txid
  txIndex : record.txIndex < 256 ^ 4
  value : record.toDestination.parts.2.2.1 < 256 ^ 8

/-! ### Reading a record -/

/-- The bytes of a record behind the version, the kind and the status. -/
def recordBody (record : JournalRecord) : List UInt8 :=
  inscriptionIdCodec.store record.inscriptionId ++
    ((FixedCodec.be 8).store record.inscriptionNumber ++
      (satPointCodec.store record.fromSatpoint ++
        (satPointCodec.store record.toDestination.parts.2.1 ++
          (txidCodec.store record.txid ++
            ((FixedCodec.be 4).store record.txIndex ++
              ((FixedCodec.be 8).store record.toDestination.parts.2.2.1 ++
                ((FixedCodec.be 4).store record.toDestination.parts.2.2.2.length ++
                  record.toDestination.parts.2.2.2)))))))

variable {record : JournalRecord}

theorem encode_eq (hscript : record.toDestination.parts.2.2.2.length < 2 ^ 32) :
    record.encode =
      .ok (journalRecordVersion :: record.kind.byte :: record.toDestination.parts.1 ::
        recordBody record) := if_pos hscript

/-- A longer script is refused by an assertion. -/
theorem encode_of_long (hlong : 2 ^ 32 ≤ record.toDestination.parts.2.2.2.length) :
    record.encode = .error .panicked := if_neg (Nat.not_lt_of_le hlong)

theorem kindOfByte_byte (kind : JournalKind) : kindOfByte kind.byte = .ok kind := by
  cases kind <;> rfl

theorem destinationOfStatus_parts (destination : JournalDestination) :
    destinationOfStatus destination.parts.1 destination.parts.2.1 destination.parts.2.2.1
      destination.parts.2.2.2 = .ok destination := by
  cases destination with
  | assigned satpoint value scriptPubkey => rfl
  | lost satpoint => rfl

theorem decode_encode (fits : record.Fits)
    (hscript : record.toDestination.parts.2.2.2.length < 2 ^ 32) :
    ∃ bytes, record.encode = .ok bytes ∧ JournalRecord.decode bytes = .ok record := by
  refine ⟨_, encode_eq hscript, ?_⟩
  generalize hbytes : journalRecordVersion :: record.kind.byte :: record.toDestination.parts.1 ::
    recordBody record = bytes
  have hstart : 3 ≤ bytes.length := by
    rw [← hbytes]
    exact Nat.le_add_left 3 _
  have hdrop : bytes.drop 3 = recordBody record := by
    rw [← hbytes]
    rfl
  obtain ⟨hid, hstart, hdrop⟩ := inscriptionIdCodec.read_store hstart hdrop fits.inscriptionId
  obtain ⟨hnumber, hstart, hdrop⟩ := (FixedCodec.be 8).read_store hstart hdrop fits.inscriptionNumber
  obtain ⟨hfrom, hstart, hdrop⟩ := satPointCodec.read_store hstart hdrop fits.fromSatpoint
  obtain ⟨hto, hstart, hdrop⟩ := satPointCodec.read_store hstart hdrop fits.satpoint
  obtain ⟨htxid, hstart, hdrop⟩ := txidCodec.read_store hstart hdrop fits.txid
  obtain ⟨hindex, hstart, hdrop⟩ := (FixedCodec.be 4).read_store hstart hdrop fits.txIndex
  obtain ⟨hvalue, hstart, hdrop⟩ := (FixedCodec.be 8).read_store hstart hdrop fits.value
  obtain ⟨hlen, hstart, hdrop⟩ := (FixedCodec.be 4).read_store hstart hdrop hscript
  have hlong : journalFixedBytes ≤ bytes.length := hstart
  have hrest : bytes.drop journalFixedBytes = record.toDestination.parts.2.2.2 := hdrop
  have htotal : bytes.length = journalFixedBytes + record.toDestination.parts.2.2.2.length := by
    rw [← hrest, List.length_drop]
    omega
  have hsum : journalFixedBytes + record.toDestination.parts.2.2.2.length < 2 ^ 64 := by
    have hfixed : journalFixedBytes = 183 := rfl
    omega
  have hversion : index bytes 0 = .ok journalRecordVersion := by rw [← hbytes]; rfl
  have hkind : index bytes 1 = .ok record.kind.byte := by rw [← hbytes]; rfl
  have hstatus : index bytes 2 = .ok record.toDestination.parts.1 := by rw [← hbytes]; rfl
  rw [JournalRecord.decode, if_neg (Nat.not_lt_of_le hlong), hversion, ok_bind, if_neg (not_not.mpr rfl),
    hid, ok_bind]
  dsimp only
  rw [hnumber, ok_bind]
  dsimp only
  rw [hfrom, ok_bind]
  dsimp only
  rw [hto, ok_bind]
  dsimp only
  rw [htxid, ok_bind]
  dsimp only
  rw [hindex, ok_bind]
  dsimp only
  rw [hvalue, ok_bind]
  dsimp only
  rw [hlen, ok_bind]
  dsimp only
  rw [checkedAddUsize_of_lt hsum, ok_bind, if_neg (not_not.mpr htotal), sliceFrom_of_le hlong, ok_bind, hkind,
    ok_bind, kindOfByte_byte, ok_bind, hstatus, ok_bind, hrest, destinationOfStatus_parts]
  rfl

/-! ### What is read -/

theorem kindOfByte_eq_ok {byte : UInt8} {kind : JournalKind} (hkind : kindOfByte byte = .ok kind) :
    kind.byte = byte := by
  unfold kindOfByte at hkind
  split at hkind
  next h =>
    cases hkind
    exact h.symm
  split at hkind
  next h =>
    cases hkind
    exact h.symm
  next => cases hkind

theorem kindOfByte_settles (byte : UInt8) : Settles (kindOfByte byte) := by
  unfold kindOfByte
  split
  next => exact settles_ok _
  split
  next => exact settles_ok _
  next => exact settles_refused

theorem destinationOfStatus_settles (status : UInt8) (satpoint : SatPoint) (value : ℕ) (script : Script) :
    Settles (destinationOfStatus status satpoint value script) := by
  unfold destinationOfStatus
  split
  next => exact settles_ok _
  split
  next => exact settles_ok _
  next => exact settles_refused

theorem destinationOfStatus_eq_ok {status : UInt8} {satpoint : SatPoint} {value : ℕ} {script : Script}
    {destination : JournalDestination}
    (hdestination : destinationOfStatus status satpoint value script = .ok destination) :
    destination.parts = (status, satpoint, value, script) := by
  unfold destinationOfStatus at hdestination
  split at hdestination
  next h =>
    cases hdestination
    rw [h]
    rfl
  split at hdestination
  next h =>
    cases hdestination
    rw [h.1, h.2.1, List.isEmpty_iff.mp h.2.2]
    rfl
  next => cases hdestination

variable {bytes : List UInt8}

/-- Three bytes and the rest. -/
theorem cons_drop {b0 b1 b2 : UInt8} (h0 : index bytes 0 = .ok b0) (h1 : index bytes 1 = .ok b1)
    (h2 : index bytes 2 = .ok b2) :
    b0 :: b1 :: b2 :: bytes.drop 3 = bytes := by
  match bytes with
  | [] => cases h0
  | [_] => cases h1
  | [_, _] => cases h2
  | _ :: _ :: _ :: _ =>
      cases h0
      cases h1
      cases h2
      rfl

/-- Whatever is decoded fits, and the bytes are its encoding. -/
theorem encode_decode (hdecode : JournalRecord.decode bytes = .ok record) :
    record.Fits ∧ record.encode = .ok bytes := by
  unfold JournalRecord.decode at hdecode
  split at hdecode
  next => cases hdecode
  next hshort =>
    obtain ⟨version, hversion, h⟩ := bind_eq_ok.mp hdecode
    split at h
    next => cases h
    next hone =>
      obtain ⟨⟨inscriptionId, p1⟩, h1, h⟩ := bind_eq_ok.mp h
      obtain ⟨⟨inscriptionNumber, p2⟩, h2, h⟩ := bind_eq_ok.mp h
      obtain ⟨⟨fromSatpoint, p3⟩, h3, h⟩ := bind_eq_ok.mp h
      obtain ⟨⟨satpoint, p4⟩, h4, h⟩ := bind_eq_ok.mp h
      obtain ⟨⟨txid, p5⟩, h5, h⟩ := bind_eq_ok.mp h
      obtain ⟨⟨txIndex, p6⟩, h6, h⟩ := bind_eq_ok.mp h
      obtain ⟨⟨value, p7⟩, h7, h⟩ := bind_eq_ok.mp h
      obtain ⟨⟨scriptLen, p8⟩, h8, h⟩ := bind_eq_ok.mp h
      obtain ⟨total, htotal, h⟩ := bind_eq_ok.mp h
      split at h
      next => cases h
      next hlength =>
        obtain ⟨script, hscript, h⟩ := bind_eq_ok.mp h
        obtain ⟨kindByte, hkindByte, h⟩ := bind_eq_ok.mp h
        obtain ⟨kind, hkind, h⟩ := bind_eq_ok.mp h
        obtain ⟨status, hstatus, h⟩ := bind_eq_ok.mp h
        obtain ⟨destination, hdestination, h⟩ := bind_eq_ok.mp h
        cases h
        have hparts := destinationOfStatus_eq_ok hdestination
        obtain ⟨rfl, hid, d1⟩ := inscriptionIdCodec.read_eq_ok h1
        obtain ⟨rfl, hnumber, d2⟩ := (FixedCodec.be 8).read_eq_ok h2
        obtain ⟨rfl, hfrom, d3⟩ := satPointCodec.read_eq_ok h3
        obtain ⟨rfl, hsatpoint, d4⟩ := satPointCodec.read_eq_ok h4
        obtain ⟨rfl, htxid, d5⟩ := txidCodec.read_eq_ok h5
        obtain ⟨rfl, hindex, d6⟩ := (FixedCodec.be 4).read_eq_ok h6
        obtain ⟨rfl, hvalue, d7⟩ := (FixedCodec.be 8).read_eq_ok h7
        obtain ⟨rfl, hlen, d8⟩ := (FixedCodec.be 4).read_eq_ok h8
        rw [sliceFrom_of_le (Nat.le_of_not_lt hshort)] at hscript
        have hrest : bytes.drop journalFixedBytes = script := Except.ok.inj hscript
        have hscriptLen : script.length = scriptLen := by
          rw [← hrest, List.length_drop, not_not.mp hlength, checkedAddUsize_eq_ok htotal,
            Nat.add_sub_cancel_left]
        have hfits : JournalRecord.Fits
            { kind, inscriptionId, inscriptionNumber, fromSatpoint, toDestination := destination, txid,
              txIndex } :=
          { inscriptionId := hid
            inscriptionNumber := hnumber
            fromSatpoint := hfrom
            satpoint := by rw [hparts]; exact hsatpoint
            txid := htxid
            txIndex := hindex
            value := by rw [hparts]; exact hvalue }
        refine ⟨hfits, ?_⟩
        have hbody : recordBody
            { kind, inscriptionId, inscriptionNumber, fromSatpoint, toDestination := destination, txid,
              txIndex } = bytes.drop 3 := by
          subst hrest
          rw [recordBody, hparts, d1, d2, d3, d4, d5, d6, d7, d8, hscriptLen]
          rfl
        rw [encode_eq (by rw [hparts, hscriptLen]; exact hlen), hbody, hparts, kindOfByte_eq_ok hkind,
          ← not_not.mp hone]
        exact congrArg Except.ok (cons_drop hversion hkindByte hstatus)

/-- No byte string makes the decoder panic. -/
theorem decode_settles (bytes : List UInt8) : Settles (JournalRecord.decode bytes) := by
  unfold JournalRecord.decode
  split
  next => exact settles_refused
  next hshort =>
    have hlong : journalFixedBytes ≤ bytes.length := Nat.le_of_not_lt hshort
    rw [index_of_lt (Nat.lt_of_lt_of_le (by decide) hlong) 0, ok_bind]
    split
    next => exact settles_refused
    next =>
      refine inscriptionIdCodec.read_bind_settles (Nat.le_trans (by decide) hlong) fun _ => ?_
      refine (FixedCodec.be 8).read_bind_settles (Nat.le_trans (by decide) hlong) fun _ => ?_
      refine satPointCodec.read_bind_settles (Nat.le_trans (by decide) hlong) fun _ => ?_
      refine satPointCodec.read_bind_settles (Nat.le_trans (by decide) hlong) fun _ => ?_
      refine txidCodec.read_bind_settles (Nat.le_trans (by decide) hlong) fun _ => ?_
      refine (FixedCodec.be 4).read_bind_settles (Nat.le_trans (by decide) hlong) fun _ => ?_
      refine (FixedCodec.be 8).read_bind_settles (Nat.le_trans (by decide) hlong) fun _ => ?_
      refine (FixedCodec.be 4).read_bind_settles (Nat.le_trans (by decide) hlong) fun _ => ?_
      refine (checkedAddUsize_settles _ _).bind fun _ _ => ?_
      split
      next => exact settles_refused
      next =>
        rw [sliceFrom_of_le hlong, ok_bind, index_of_lt (Nat.lt_of_lt_of_le (by decide) hlong) 0, ok_bind]
        refine (kindOfByte_settles _).bind fun _ _ => ?_
        rw [index_of_lt (Nat.lt_of_lt_of_le (by decide) hlong) 0, ok_bind]
        exact (destinationOfStatus_settles _ _ _ _).bind fun _ _ => settles_ok _

/-! ### Cursors -/

theorem length_slice {start n : ℕ} (hroom : start + n ≤ bytes.length) :
    (Feed.slice bytes start n).length = n := by
  rw [Feed.slice, List.length_take, List.length_drop]
  omega

/-- A number read from as many bytes as its type has is stored as these bytes. -/
theorem toBeBytes_slice {start n : ℕ} (hroom : start + n ≤ bytes.length) :
    ByteText.toBeBytes n (ByteText.ofBeBytes (Feed.slice bytes start n)) = Feed.slice bytes start n :=
  (FixedCodec.be n).store_load (length_slice hroom)

theorem ofBeBytes_slice_lt {start n : ℕ} (hroom : start + n ≤ bytes.length) :
    ByteText.ofBeBytes (Feed.slice bytes start n) < 256 ^ n :=
  (FixedCodec.be n).inRange_load (length_slice hroom)

theorem tryInto_eq_some {n : ℕ} {fixed : FixedBytes n} (htry : tryInto n bytes = some fixed) :
    fixed.1 = bytes := by
  unfold tryInto at htry
  split at htry
  next =>
    cases htry
    rfl
  next => cases htry

theorem slice_append_drop (bytes : List UInt8) (start n : ℕ) :
    Feed.slice bytes start n ++ bytes.drop (start + n) = bytes.drop start := by
  rw [Feed.slice, ← List.drop_drop, List.take_append_drop]

/-- Whatever is decoded to a cursor is the text of that cursor. -/
theorem BlockCursor.encode_decode {text : Text} {cursor : BlockCursor}
    (hdecode : BlockCursor.decode text = some cursor) : text = cursor.encode := by
  unfold BlockCursor.decode at hdecode
  split at hdecode
  next => cases hdecode
  next =>
    obtain ⟨bytes, hbytes, h⟩ := Option.bind_eq_some_iff.mp hdecode
    split at h
    next => cases h
    next hlayout =>
      split at h
      next => cases h
      next hcanonical =>
        obtain ⟨databaseId, hdatabaseId, h⟩ := Option.bind_eq_some_iff.mp h
        obtain ⟨blockHash, hblockHash, h⟩ := Option.bind_eq_some_iff.mp h
        obtain ⟨eventsHash, heventsHash, h⟩ := Option.bind_eq_some_iff.mp h
        cases h
        simp only [Bool.or_eq_true, decide_eq_true_eq, not_or, ne_eq, not_not] at hlayout
        obtain ⟨hlength, hhead⟩ := hlayout
        have hroom : 97 ≤ bytes.length := Nat.le_of_eq hlength.symm
        have hepoch : (UInt64.ofNat (ByteText.ofBeBytes (Feed.slice bytes 17 8))).toNat =
            ByteText.ofBeBytes (Feed.slice bytes 17 8) :=
          UInt64.toNat_ofNat_of_lt' (ofBeBytes_slice_lt (Nat.le_trans (by decide) hroom))
        have hheight : (UInt32.ofNat (ByteText.ofBeBytes (Feed.slice bytes 25 4))).toNat =
            ByteText.ofBeBytes (Feed.slice bytes 25 4) :=
          UInt32.toNat_ofNat_of_lt' (ofBeBytes_slice_lt (Nat.le_trans (by decide) hroom))
        have hordinal : (UInt32.ofNat (ByteText.ofBeBytes (Feed.slice bytes 93 4))).toNat =
            ByteText.ofBeBytes (Feed.slice bytes 93 4) :=
          UInt32.toNat_ofNat_of_lt' (ofBeBytes_slice_lt (Nat.le_trans (by decide) hroom))
        have hlast : bytes.drop 97 = [] := List.drop_eq_nil_of_le (Nat.le_of_eq hlength)
        have hbody : Feed.slice bytes 1 16 ++ (Feed.slice bytes 17 8 ++ (Feed.slice bytes 25 4 ++
            (Feed.slice bytes 29 32 ++ (Feed.slice bytes 61 32 ++ Feed.slice bytes 93 4)))) =
              bytes.drop 1 := by
          rw [← slice_append_drop bytes 1 16, ← slice_append_drop bytes 17 8,
            ← slice_append_drop bytes 25 4, ← slice_append_drop bytes 29 32,
            ← slice_append_drop bytes 61 32, ← slice_append_drop bytes 93 4, hlast, List.append_nil]
        have hversion : [cursorVersion] ++ bytes.drop 1 = bytes := by
          cases bytes with
          | nil => cases hhead
          | cons first rest =>
              cases hhead
              rfl
        rw [BlockCursor.encode, BlockCursor.bytes, hepoch, hheight, hordinal, tryInto_eq_some hdatabaseId,
          tryInto_eq_some hblockHash, tryInto_eq_some heventsHash,
          toBeBytes_slice (Nat.le_trans (by decide) hroom), toBeBytes_slice (Nat.le_trans (by decide) hroom),
          toBeBytes_slice (Nat.le_trans (by decide) hroom), hbody, hversion]
        exact (not_not.mp hcanonical).symm

/-! ### The two formats -/

/-- The two binary formats are exact.  A journal record whose fields are in the range of their types is
decoded from its encoding, as long as its script is one that `encode` takes; whatever is decoded is such a
record and the bytes are its encoding; no byte string makes the decoder panic.  A cursor is decoded from its
text, and a text that is decoded is that of its cursor. -/
theorem feedCodecs_exact :
    (∀ record : JournalRecord, record.Fits → record.toDestination.parts.2.2.2.length < 2 ^ 32 →
        ∃ bytes, record.encode = .ok bytes ∧ JournalRecord.decode bytes = .ok record) ∧
      (∀ bytes record, JournalRecord.decode bytes = .ok record →
        record.Fits ∧ record.encode = .ok bytes) ∧
      (∀ bytes, Settles (JournalRecord.decode bytes)) ∧
      (∀ cursor : BlockCursor, BlockCursor.decode cursor.encode = some cursor) ∧
      ∀ text cursor, BlockCursor.decode text = some cursor → text = cursor.encode :=
  ⟨fun _ => decode_encode, fun _ _ => encode_decode, decode_settles, BlockCursor.decode_encode,
    fun _ _ => BlockCursor.encode_decode⟩

/-- A record of a creation in the first output of its transaction. -/
def recordWithScript (script : Script) : JournalRecord where
  kind := .creation
  inscriptionId := { txid := 1, index := 0 }
  inscriptionNumber := 0
  fromSatpoint := { outpoint := { txid := 1, vout := 0 }, offset := 0 }
  toDestination := .assigned { outpoint := { txid := 1, vout := 0 }, offset := 0 } 1 script
  txid := 1
  txIndex := 1

/-- With a script whose length leaves `u32` its encoding panics. -/
theorem longScript_panics :
    ∃ record : JournalRecord, record.Fits ∧ record.encode = .error .panicked := by
  have hpos : ∀ width, 0 < 256 ^ (width + 1) := fun width => Nat.pow_pos (by decide)
  have hone : ∀ width, 1 < 256 ^ (width + 1) := fun width => Nat.one_lt_pow (by omega) (by decide)
  have hsatpoint : satPointCodec.InRange { outpoint := { txid := 1, vout := 0 }, offset := 0 } :=
    satPointCodec_inRange.mpr ⟨⟨hone 31, hpos 3⟩, hpos 7⟩
  have hscript : ∀ script, (recordWithScript script).toDestination.parts.2.2.2 = script := fun _ => rfl
  refine ⟨recordWithScript (List.replicate (2 ^ 32) 0), ?_,
    encode_of_long (by rw [hscript, List.length_replicate])⟩
  exact
    { inscriptionId := inscriptionIdCodec_inRange.mpr ⟨hone 31, hpos 3⟩
      inscriptionNumber := hpos 7
      fromSatpoint := hsatpoint
      satpoint := hsatpoint
      txid := hone 31
      txIndex := hone 3
      value := hone 7 }

end OrdDogecoin.Feed
