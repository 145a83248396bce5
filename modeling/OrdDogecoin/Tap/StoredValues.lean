/-
Module: OrdDogecoin.Tap.StoredValues
Purpose: What the TAP store gives back.  The JSON text of an array or object starts as a CBOR string
  that is cut off, so no CBOR reader takes it and it is read as JSON; a string with a marker is kept as
  the bytes Node writes for it, where a lone surrogate is U+FFFD.
Trusted boundary: the CBOR and JSON implementations of the stored type satisfy `TypeCodec.Lawful`
Main exports: fromUtf8_encode, jsStringNodeUtf8Bytes_points, storedValue_decodes
-/
import OrdDogecoin.Tap.ValueReading

namespace OrdDogecoin.Tap

open Utf16
open Option (bind_some bind_eq_bind)

/-! ### UTF-8 -/

theorem fromUtf8_encode (text : Text) : fromUtf8 (Utf8.encode text) = some text := by
  have hbytes : (Utf8.encode text).toByteArray = (String.ofList text).toByteArray := rfl
  unfold fromUtf8 String.fromUTF8?
  rw [hbytes, dif_pos (String.ofList text).isValidUTF8]
  exact congrArg some String.toList_ofList

theorem encode_cons_ascii {c : Char} (hc : c.toNat < 0x80) (text : Text) :
    Utf8.encode (c :: text) = UInt8.ofNat c.toNat :: Utf8.encode text := by
  have hone : String.utf8EncodeChar c = [UInt8.ofNat c.toNat] := by
    unfold String.utf8EncodeChar
    exact if_pos (Nat.le_of_lt_succ hc)
  rw [Utf8.encode, List.flatMap_cons, hone]
  rfl

/-! ### Strings with a marker -/

theorem nodeBytes_pointPiece {point : ℕ} (hpoint : point < 0x110000) :
    (pointPiece point).nodeBytes = String.utf8EncodeChar (Utf8.scalar point) := by
  unfold pointPiece
  by_cases hsurrogate : IsHigh point ∨ IsLow point
  · have hnot : ¬ point.isValidChar := by
      unfold IsHigh IsLow at hsurrogate
      rintro (hlow | hhigh)
      · omega
      · omega
    rw [if_pos hsurrogate, Piece.nodeBytes, if_pos rfl, Utf8.scalar, if_neg hnot]
  · have hvalid := isValidChar_of_not_surrogate hpoint hsurrogate
    rw [if_neg hsurrogate, Utf8.scalar, if_pos hvalid]
    split
    · rw [Piece.nodeBytes, if_neg (by decide), charFromU32, if_pos hvalid]
      rfl
    · rfl

/-- A string is kept as Node writes it: a lone surrogate is U+FFFD. -/
theorem jsStringNodeUtf8Bytes_points {points : List ℕ} (hpoints : CodePoints points) :
    jsStringNodeUtf8Bytes (points.flatMap codePointText) = Utf8.encode (points.map Utf8.scalar) := by
  unfold jsStringNodeUtf8Bytes
  split
  · rw [pieces_points hpoints, Utf8.encode, List.flatMap_map, List.flatMap_map]
    exact List.flatMap_congr fun point hpoint => nodeBytes_pointPiece (hpoints point hpoint)
  next hstart =>
    congr 1
    induction points with
    | nil => rfl
    | cons point points ih =>
        rw [List.flatMap_cons, List.mem_append, not_or] at hstart
        obtain ⟨hpoint, hpoints⟩ := List.forall_mem_cons.1 hpoints
        obtain ⟨hscalar, -, htext⟩ := codePointText_of_not_mem hstart.1
        rw [List.flatMap_cons, htext, ih hpoints hstart.2, List.map_cons, Utf8.scalar,
          if_pos (isValidChar_of_not_surrogate hpoint hscalar)]
        rfl

instance (units : List ℕ) : Decidable (CodeUnits units) :=
  inferInstanceAs (Decidable (∀ unit ∈ units, unit < 0x10000))

/-! ### CBOR -/

/-- A CBOR string with eight bytes of length that ends before its length. -/
def CutItem (bytes : List UInt8) : Prop :=
  ∃ head size rest, bytes = head :: (size ++ rest) ∧ (head = 0x5b ∨ head = 0x7b) ∧
    (size.length < 8 ∧ rest = [] ∨ size.length = 8 ∧ rest.length < ByteText.ofBeBytes size)

theorem le_ofBeBytes (byte : UInt8) (bytes : List UInt8) :
    256 ^ bytes.length * byte.toNat ≤ ByteText.ofBeBytes (byte :: bytes) := by
  rw [ByteText.ofBeBytes, List.reverse_cons, LittleEndian.ofLeBytes_concat, List.length_reverse]
  exact Nat.le_add_left _ _

/-- A bracket in front of a value is the head of a string that is cut off. -/
theorem cutItem_of_startsValue {c : Char} (hc : c = '[' ∨ c = '\x7b') {text : Text}
    (hstarts : StartsValue text) (hsize : (Utf8.encode text).length < 2 ^ 61) :
    CutItem (Utf8.encode (c :: text)) := by
  obtain ⟨d, more, rfl, hascii, hprints, -, -⟩ := hstarts
  have hhead : UInt8.ofNat c.toNat = 0x5b ∨ UInt8.ofNat c.toNat = 0x7b := by
    rcases hc with rfl | rfl
    · exact .inl rfl
    · exact .inr rfl
  rw [encode_cons_ascii (by rcases hc with rfl | rfl <;> decide)]
  by_cases hshort : (Utf8.encode (d :: more)).length < 8
  · exact ⟨_, Utf8.encode (d :: more), [], by rw [List.append_nil], hhead, .inl ⟨hshort, rfl⟩⟩
  · refine ⟨_, (Utf8.encode (d :: more)).take 8, (Utf8.encode (d :: more)).drop 8,
      by rw [List.take_append_drop], hhead, .inr ⟨by rw [List.length_take]; omega, ?_⟩⟩
    rw [encode_cons_ascii hascii, List.length_cons] at hsize hshort
    rw [encode_cons_ascii hascii, List.take_succ_cons, List.drop_succ_cons, List.length_drop]
    have hlength : ((Utf8.encode more).take 7).length = 7 := by
      rw [List.length_take]
      omega
    have hlow := le_ofBeBytes (UInt8.ofNat d.toNat) ((Utf8.encode more).take 7)
    rw [hlength, UInt8.toNat_ofNat', Nat.mod_eq_of_lt (by omega)] at hlow
    omega

/-- No CBOR reader takes the JSON text of an array or object. -/
theorem cutItem_stringify {json : Json} (hcomposite : ∀ text, json ≠ .string text)
    (hmarker : jsValueContainsInternalMarker json = true) {lib : NumberLib} {limit : ℕ}
    (readable : Readable lib limit json)
    (hsize : (Utf8.encode (jsJsonStringify json)).length < 2 ^ 61) :
    CutItem (Utf8.encode (jsJsonStringify json)) := by
  cases readable with
  | null | bool | number | double => cases hmarker
  | string => exact absurd rfl (hcomposite _)
  | @array _ items hitems =>
      have hne : items ≠ [] := by
        rintro rfl
        cases hmarker
      have hstarts := startsValue_items hne fun item hitem => (hitems item hitem).startsValue
      rw [jsJsonStringify] at hsize ⊢
      rw [encode_cons_ascii (by decide), List.length_cons] at hsize
      exact cutItem_of_startsValue (.inl rfl) (hstarts.append _) (by omega)
  | @object _ fields =>
      have hne : fields ≠ [] := by
        rintro rfl
        cases hmarker
      rw [jsJsonStringify] at hsize ⊢
      rw [encode_cons_ascii (by decide), List.length_cons] at hsize
      exact cutItem_of_startsValue (.inr rfl) ((startsValue_members hne).append _) (by omega)

/-! ### The round trip -/

section Stored

variable {T : Type}

/-- The implementations of a type read back the value, and its CBOR reader takes no string that is cut
off. -/
structure TypeCodec.Lawful (codec : TypeCodec T) (value : T) : Prop where
  fromValue : codec.fromValue (codec.toValue value) = some value
  cborRead : codec.cborRead (codec.cborWrite value) = some value
  cut : ∀ bytes, CutItem bytes → codec.cborRead bytes = none

variable {codec : TypeCodec T} {value : T} {lib : NumberLib}

/-- A value without a marker goes through CBOR. -/
theorem tapDecodeValue_plain (lawful : codec.Lawful value)
    (hplain : jsValueContainsInternalMarker (codec.toValue value) = false) :
    tapDecodeValue codec lib (tapEncodeValue codec value) = some value := by
  have hencode : tapEncodeValue codec value = codec.cborWrite value := by
    unfold tapEncodeValue
    split
    next text heq =>
      rw [heq, jsValueContainsInternalMarker] at hplain
      rw [hplain, if_neg Bool.false_ne_true]
    next => rw [hplain, if_neg Bool.false_ne_true]
  rw [hencode, tapDecodeValue, lawful.cborRead]

/-- An array or object with a marker goes through JSON. -/
theorem tapDecodeValue_composite (lawful : codec.Lawful value)
    (hcomposite : ∀ text, codec.toValue value ≠ .string text)
    (hmarker : jsValueContainsInternalMarker (codec.toValue value) = true)
    (readable : Readable lib nestingLimit (codec.toValue value))
    (hsize : (Utf8.encode (jsJsonStringify (codec.toValue value))).length < 2 ^ 61)
    {found : T} (hfound : codec.fromValue ((codec.toValue value).reread lib) = some found) :
    tapDecodeValue codec lib (tapEncodeValue codec value) = some found := by
  have hencode : tapEncodeValue codec value = Utf8.encode (jsJsonStringify (codec.toValue value)) := by
    unfold tapEncodeValue
    split
    next text heq => exact absurd heq (hcomposite text)
    next => rw [if_pos hmarker]
  rw [hencode, tapDecodeValue, lawful.cut _ (cutItem_stringify hcomposite hmarker readable hsize)]
  dsimp only
  rw [fromUtf8_encode]
  dsimp only [bind_eq_bind, bind_some]
  rw [serdeFromStr_stringify readable, bind_some, hfound]
  rfl

theorem tapEncodeValue_string {units : List ℕ} (hunits : CodeUnits units)
    (hstring : codec.toValue value = .string (modelString units))
    (hmarker : jsStringContainsInternalMarker (modelString units) = true) :
    tapEncodeValue codec value = Utf8.encode ((codePoints units).map Utf8.scalar) := by
  unfold tapEncodeValue
  rw [hstring]
  dsimp only
  rw [if_pos hmarker, modelString, jsStringNodeUtf8Bytes_points (lt_of_mem_codePoints hunits)]

/-- What a stored value reads back as.  A value without a marker reads back as itself.  An array or object
with one reads back as its JSON value, the doubles as JavaScript prints them; so it reads back as itself
when these are no integers.  A string with one is kept as the UTF-8 text that Node writes for it. -/
theorem storedValue_decodes (codec : TypeCodec T) (lib : NumberLib) {value : T}
    (lawful : codec.Lawful value) :
    (jsValueContainsInternalMarker (codec.toValue value) = false →
      tapDecodeValue codec lib (tapEncodeValue codec value) = some value) ∧
    ((∀ text, codec.toValue value ≠ .string text) →
      jsValueContainsInternalMarker (codec.toValue value) = true →
      Readable lib nestingLimit (codec.toValue value) →
      (Utf8.encode (jsJsonStringify (codec.toValue value))).length < 2 ^ 61 →
      (∀ found, codec.fromValue ((codec.toValue value).reread lib) = some found →
        tapDecodeValue codec lib (tapEncodeValue codec value) = some found) ∧
      ((codec.toValue value).reread lib = codec.toValue value →
        tapDecodeValue codec lib (tapEncodeValue codec value) = some value)) ∧
    (∀ units, CodeUnits units → codec.toValue value = .string (modelString units) →
      jsStringContainsInternalMarker (modelString units) = true →
      tapEncodeValue codec value = Utf8.encode ((codePoints units).map Utf8.scalar)) := by
  refine ⟨tapDecodeValue_plain lawful, ?_, fun units => tapEncodeValue_string⟩
  intro hcomposite hmarker readable hsize
  refine ⟨fun found => tapDecodeValue_composite lawful hcomposite hmarker readable hsize, fun hsame => ?_⟩
  refine tapDecodeValue_composite lawful hcomposite hmarker readable hsize ?_
  rw [hsame, lawful.fromValue]

end Stored

/-! ### Texts in CBOR -/

theorem cborReadText_write {text : Text} (hshort : (Utf8.encode text).length < 24)
    (rest : List UInt8) : cborReadText (cborWriteText text ++ rest) = some (text, rest) := by
  have hhead : (UInt8.ofNat (0x60 + (Utf8.encode text).length)).toNat =
      0x60 + (Utf8.encode text).length := by
    rw [UInt8.toNat_ofNat', Nat.mod_eq_of_lt (by omega)]
  have hbounds : 0x60 ≤ UInt8.ofNat (0x60 + (Utf8.encode text).length) ∧
      UInt8.ofNat (0x60 + (Utf8.encode text).length) < 0x78 := by
    rw [UInt8.le_iff_toNat_le, UInt8.lt_iff_toNat_lt, hhead]
    exact ⟨Nat.le_add_right _ _, Nat.add_lt_add_left hshort _⟩
  have hsize : cborTextSize (cborWriteText text ++ rest) =
      some ((Utf8.encode text).length, Utf8.encode text ++ rest) := by
    rw [cborWriteText, if_pos hshort, List.append_assoc, List.singleton_append, cborTextSize, if_pos hbounds, hhead,
      Nat.add_sub_cancel_left]
  rw [cborReadText, hsize, bind_some, if_neg (by simp), List.take_left, List.drop_left,
    fromUtf8_encode]
  rfl

theorem cborReadText_cut {bytes : List UInt8} (hcut : CutItem bytes) : cborReadText bytes = none := by
  obtain ⟨head, size, rest, rfl, rfl | rfl, hlength⟩ := hcut
  · rfl
  · have hwidth : cborTextSize (0x7b :: (size ++ rest)) =
        if (size ++ rest).length < 8 then none
        else some (ByteText.ofBeBytes ((size ++ rest).take 8), (size ++ rest).drop 8) := rfl
    rw [cborReadText, hwidth]
    rcases hlength with ⟨hshort, rfl⟩ | ⟨hsize, hrest⟩
    · rw [List.append_nil, if_pos hshort]
      rfl
    · rw [if_neg (by rw [List.length_append]; omega), List.take_left' hsize, List.drop_left' hsize,
        bind_some, if_pos hrest]

theorem stringCodec_lawful {text : Text} (hshort : (Utf8.encode text).length < 24) :
    stringCodec.Lawful text where
  fromValue := rfl
  cborRead := by
    have hread := cborReadText_write hshort []
    rw [List.append_nil] at hread
    exact congrArg (Option.map Prod.fst) hread
  cut bytes hcut := congrArg (Option.map Prod.fst) (cborReadText_cut hcut)

/-- A lone surrogate as a string of its own is read back as U+FFFD. -/
theorem loneSurrogate_replaced :
    stringCodec.Lawful (modelString [0xd800]) ∧
      tapDecodeValue stringCodec printedDoubles
          (tapEncodeValue stringCodec (modelString [0xd800])) = some [Utf8.replacement] ∧
      [Utf8.replacement] ≠ modelString [0xd800] := by
  have hencode : tapEncodeValue stringCodec (modelString [0xd800]) =
      Utf8.encode ((codePoints [0xd800]).map Utf8.scalar) :=
    tapEncodeValue_string (by decide) rfl (by decide)
  have hpoints : (codePoints [0xd800]).map Utf8.scalar = [Utf8.replacement] := by decide
  have hcbor : stringCodec.cborRead (Utf8.encode [Utf8.replacement]) = none := by decide
  have hjson : serdeFromStr printedDoubles (preprocessJsJsonForSerde [Utf8.replacement]) = none := by
    decide +kernel
  refine ⟨stringCodec_lawful (by decide), ?_, by decide⟩
  rw [hencode, hpoints, tapDecodeValue, hcbor]
  dsimp only
  rw [fromUtf8_encode]
  dsimp only [bind_eq_bind, bind_some]
  rw [hjson]
  rfl

/-- `TokenLockFeeRecord`. -/
structure TokenLockFeeRecord where
  addr : Text
  amt : Text
deriving DecidableEq, Repr

/-- The two members of a `TokenLockFeeRecord` in CBOR, in either order. -/
def readTokenLockFee (bytes : List UInt8) : Option TokenLockFeeRecord := do
  let (first, bytes) ← cborReadText bytes
  let (firstValue, bytes) ← cborReadText bytes
  let (second, bytes) ← cborReadText bytes
  let (secondValue, _) ← cborReadText bytes
  if first = "addr".toList ∧ second = "amt".toList then
    some { addr := firstValue, amt := secondValue }
  else if first = "amt".toList ∧ second = "addr".toList then
    some { addr := secondValue, amt := firstValue }
  else none

/-- `TokenLockFeeRecord` in the store. -/
def tokenLockFeeCodec : TypeCodec TokenLockFeeRecord where
  toValue record :=
    .object [("addr".toList, .string record.addr), ("amt".toList, .string record.amt)]
  fromValue
    | .object fields => do
        let addr ← fields.lookup "addr".toList
        let amt ← fields.lookup "amt".toList
        match addr, amt with
        | .string addr, .string amt => some { addr := addr, amt := amt }
        | _, _ => none
    | .array [.string addr, .string amt] => some { addr := addr, amt := amt }
    | _ => none
  cborWrite record :=
    0xa2 :: (cborWriteText "addr".toList ++ (cborWriteText record.addr ++
      (cborWriteText "amt".toList ++ cborWriteText record.amt)))
  cborRead bytes :=
    match bytes with
    | [] => none
    | head :: bytes => if head = 0xa2 then readTokenLockFee bytes else none

theorem tokenLockFeeCodec_lawful {record : TokenLockFeeRecord}
    (haddr : (Utf8.encode record.addr).length < 24) (hamt : (Utf8.encode record.amt).length < 24) :
    tokenLockFeeCodec.Lawful record where
  fromValue := rfl
  cborRead := by
    have hlast := cborReadText_write hamt []
    rw [List.append_nil] at hlast
    change readTokenLockFee _ = _
    rw [readTokenLockFee, @cborReadText_write "addr".toList (by decide)]
    dsimp only [bind_eq_bind, bind_some]
    rw [cborReadText_write haddr]
    dsimp only [bind_some]
    rw [@cborReadText_write "amt".toList (by decide)]
    dsimp only [bind_some]
    rw [hlast]
    rfl
  cut bytes hcut := by
    obtain ⟨head, size, rest, rfl, rfl | rfl, -⟩ := hcut <;> rfl

/-- A record with a lone surrogate reads back as itself. -/
theorem surrogateRecord_decodes :
    tapDecodeValue tokenLockFeeCodec printedDoubles
        (tapEncodeValue tokenLockFeeCodec { addr := modelString [0xd800], amt := ['5'] }) =
      some { addr := modelString [0xd800], amt := ['5'] } := by
  have hfive : EngineString ['5'] := ⟨[0x35], by decide, by decide⟩
  have hsurrogate : EngineString (modelString [0xd800]) := ⟨[0xd800], by decide, rfl⟩
  have hnames : EngineString "addr".toList ∧ EngineString "amt".toList :=
    ⟨⟨[0x61, 0x64, 0x64, 0x72], by decide, by decide⟩, ⟨[0x61, 0x6d, 0x74], by decide, by decide⟩⟩
  have hreadable : Readable printedDoubles nestingLimit
      (tokenLockFeeCodec.toValue { addr := modelString [0xd800], amt := ['5'] }) := by
    refine .object ?_ (by decide) ?_
    · simpa using hnames
    · simpa using ⟨.string _ hsurrogate, .string _ hfive⟩
  exact ((storedValue_decodes tokenLockFeeCodec printedDoubles
    (tokenLockFeeCodec_lawful (by decide) (by decide))).2.1 (by intro text htext; cases htext)
      (by decide) hreadable (by decide +kernel)).2 rfl

end OrdDogecoin.Tap
