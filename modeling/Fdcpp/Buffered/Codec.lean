/-
The typed operators of `buffered_socket`. An integer travels as the object representation of its
`htobe` image, which on a little-endian host is its big-endian image; a `float` or a `double`
travels as the integer with its bits. `operator<<` writes `encode`, and `operator>>` gives the
variable the bits that the bytes it read spell.
-/
import Fdcpp.Buffered.Spec

namespace Fdcpp.Buffered

open Bytes

/-! ## Byte order -/

/-- The number with the `w` bytes of `n` in the other order. -/
def bswap (w n : Nat) : Nat := ofLE (toLE w n).reverse

def htobe16 (val : UInt16) : UInt16 := .ofNat (bswap 2 val.toNat)
def htobe32 (val : UInt32) : UInt32 := .ofNat (bswap 4 val.toNat)
def htobe64 (val : UInt64) : UInt64 := .ofNat (bswap 8 val.toNat)
def be16toh (val : UInt16) : UInt16 := .ofNat (bswap 2 val.toNat)
def be32toh (val : UInt32) : UInt32 := .ofNat (bswap 4 val.toNat)
def be64toh (val : UInt64) : UInt64 := .ofNat (bswap 8 val.toNat)

/-! ## `operator<<` -/

def shlChar (val : UInt8) : SockM Unit := writeOutputBuffer (toLE 1 val.toNat)

def shlU8 (val : UInt8) : SockM Unit := writeOutputBuffer (toLE 1 val.toNat)

def shlI8 (val : Int8) : SockM Unit := shlU8 val.toUInt8

def shlU16 (val : UInt16) : SockM Unit := writeOutputBuffer (toLE 2 (htobe16 val).toNat)

def shlI16 (val : Int16) : SockM Unit := shlU16 val.toUInt16

def shlU32 (val : UInt32) : SockM Unit := writeOutputBuffer (toLE 4 (htobe32 val).toNat)

def shlI32 (val : Int32) : SockM Unit := shlU32 val.toUInt32

def shlU64 (val : UInt64) : SockM Unit := writeOutputBuffer (toLE 8 (htobe64 val).toNat)

def shlI64 (val : Int64) : SockM Unit := shlU64 val.toUInt64

/-- `operator<<(float)`, on the bits of the value. -/
def shlFloat (ival : UInt32) : SockM Unit := shlU32 ival

/-- `operator<<(double)`, on the bits of the value. -/
def shlDouble (ival : UInt64) : SockM Unit := shlU64 ival

/-- `operator<<(const char *)`, on the bytes from the pointer on up to a terminator. -/
def shlCstr (val : List UInt8) : SockM Unit := writeOutputBuffer (cstring val ++ [0])

/-- `operator<<(const std::string &)`. -/
def shlString (val : List UInt8) : SockM Unit := writeOutputBuffer (val ++ [0])

/-! ## `operator>>` -/

/-- Read over the object representation `image` of a variable, and convert what is there then. -/
def shrFixed {α : Type} (image : List UInt8) (value : List UInt8 → α) : SockM α := do
  let image ← readInputBuffer image
  pure (value image)

def shrChar (val : UInt8) : SockM UInt8 := shrFixed (toLE 1 val.toNat) fun b => .ofNat (ofLE b)

def shrU8 (val : UInt8) : SockM UInt8 := shrFixed (toLE 1 val.toNat) fun b => .ofNat (ofLE b)

def shrI8 (val : Int8) : SockM Int8 :=
  shrFixed (toLE 1 val.toUInt8.toNat) fun b => (UInt8.ofNat (ofLE b)).toInt8

def shrU16 (val : UInt16) : SockM UInt16 :=
  shrFixed (toLE 2 val.toNat) fun b => be16toh (.ofNat (ofLE b))

def shrI16 (val : Int16) : SockM Int16 :=
  shrFixed (toLE 2 val.toUInt16.toNat) fun b => (be16toh (.ofNat (ofLE b))).toInt16

def shrU32 (val : UInt32) : SockM UInt32 :=
  shrFixed (toLE 4 val.toNat) fun b => be32toh (.ofNat (ofLE b))

def shrI32 (val : Int32) : SockM Int32 :=
  shrFixed (toLE 4 val.toUInt32.toNat) fun b => (be32toh (.ofNat (ofLE b))).toInt32

def shrU64 (val : UInt64) : SockM UInt64 :=
  shrFixed (toLE 8 val.toNat) fun b => be64toh (.ofNat (ofLE b))

def shrI64 (val : Int64) : SockM Int64 :=
  shrFixed (toLE 8 val.toUInt64.toNat) fun b => (be64toh (.ofNat (ofLE b))).toInt64

/-- `operator>>(float &)`, on bits; `ival` starts uninitialised. -/
def shrFloat (ival : UInt32) : SockM UInt32 := shrU32 ival

/-- `operator>>(double &)`, on bits; `ival` starts uninitialised. -/
def shrDouble (ival : UInt64) : SockM UInt64 := shrU64 ival

/-- The loop of `operator>>(std::string &)`: `c` is what its `char c` holds before the read. -/
def readChars (c : UInt8) : Nat → List UInt8 → SockM (List UInt8)
  | 0, val => pure val
  | size + 1, val => do
    let image ← readInputBuffer [c]
    let c := image.headD c
    readChars c size (val ++ [c])

def shrString (c : UInt8) : SockM (List UInt8) := do
  recvIfPossible
  let s ← get
  let size ← strlenAt s.inRd
  let val ← readChars c size []
  -- skip terminating '\0'
  modify fun s => { s with inRd := s.inRd + 1 }
  pure val

/-! ## The fixed-width values as one type -/

/-- A value of a fixed-width type; a `float` and a `double` are their bits. -/
inductive Scalar
  | char (val : UInt8)
  | u8 (val : UInt8)
  | i8 (val : Int8)
  | u16 (val : UInt16)
  | i16 (val : Int16)
  | u32 (val : UInt32)
  | i32 (val : Int32)
  | u64 (val : UInt64)
  | i64 (val : Int64)
  | float (bits : UInt32)
  | double (bits : UInt64)
  deriving DecidableEq, Repr

/-- The fixed-width types. -/
inductive Ty
  | char | u8 | i8 | u16 | i16 | u32 | i32 | u64 | i64 | float | double
  deriving DecidableEq, Repr

/-- `sizeof`. -/
def Ty.width : Ty → Nat
  | char | u8 | i8 => 1
  | u16 | i16 => 2
  | u32 | i32 | float => 4
  | u64 | i64 | double => 8

theorem Ty.width_pos (t : Ty) : 0 < t.width := by cases t <;> decide

theorem Ty.width_le (t : Ty) : t.width ≤ 8 := by cases t <;> decide

namespace Scalar

def ty : Scalar → Ty
  | char _ => .char
  | u8 _ => .u8
  | i8 _ => .i8
  | u16 _ => .u16
  | i16 _ => .i16
  | u32 _ => .u32
  | i32 _ => .i32
  | u64 _ => .u64
  | i64 _ => .i64
  | float _ => .float
  | double _ => .double

abbrev width (x : Scalar) : Nat := x.ty.width

/-- The value modulo `2 ^ (8 * width)`. -/
def bits : Scalar → Nat
  | char v | u8 v => v.toNat
  | i8 v => v.toUInt8.toNat
  | u16 v => v.toNat
  | i16 v => v.toUInt16.toNat
  | u32 v | float v => v.toNat
  | i32 v => v.toUInt32.toNat
  | u64 v | double v => v.toNat
  | i64 v => v.toUInt64.toNat

/-- The bytes of the value on the wire. -/
def encode (x : Scalar) : List UInt8 := toBE x.width x.bits

/-- The value of the type of `x` with the bits that `b` spells. -/
def decode (x : Scalar) (b : List UInt8) : Scalar :=
  match x with
  | char _ => char (.ofNat (ofLE b))
  | u8 _ => u8 (.ofNat (ofLE b))
  | i8 _ => i8 (UInt8.ofNat (ofLE b)).toInt8
  | u16 _ => u16 (be16toh (.ofNat (ofLE b)))
  | i16 _ => i16 (be16toh (.ofNat (ofLE b))).toInt16
  | u32 _ => u32 (be32toh (.ofNat (ofLE b)))
  | i32 _ => i32 (be32toh (.ofNat (ofLE b))).toInt32
  | u64 _ => u64 (be64toh (.ofNat (ofLE b)))
  | i64 _ => i64 (be64toh (.ofNat (ofLE b))).toInt64
  | float _ => float (be32toh (.ofNat (ofLE b)))
  | double _ => double (be64toh (.ofNat (ofLE b)))

/-- The object representation of a variable that holds `x`. -/
def image (x : Scalar) : List UInt8 := toLE x.width x.bits

def shl : Scalar → SockM Unit
  | char v => shlChar v
  | u8 v => shlU8 v
  | i8 v => shlI8 v
  | u16 v => shlU16 v
  | i16 v => shlI16 v
  | u32 v => shlU32 v
  | i32 v => shlI32 v
  | u64 v => shlU64 v
  | i64 v => shlI64 v
  | float v => shlFloat v
  | double v => shlDouble v

/-- `operator>>` into a variable that holds `x`. -/
def shr : Scalar → SockM Scalar
  | char v => char <$> shrChar v
  | u8 v => u8 <$> shrU8 v
  | i8 v => i8 <$> shrI8 v
  | u16 v => u16 <$> shrU16 v
  | i16 v => i16 <$> shrI16 v
  | u32 v => u32 <$> shrU32 v
  | i32 v => i32 <$> shrI32 v
  | u64 v => u64 <$> shrU64 v
  | i64 v => i64 <$> shrI64 v
  | float v => float <$> shrFloat v
  | double v => double <$> shrDouble v

theorem width_pos (x : Scalar) : 0 < x.width := x.ty.width_pos

theorem width_le (x : Scalar) : x.width ≤ 8 := x.ty.width_le

/-- A value is its type and its bits. -/
theorem ext_bits {x y : Scalar} (ht : x.ty = y.ty) (hb : x.bits = y.bits) : x = y := by
  cases x <;> cases y <;> simp only [ty, reduceCtorEq] at ht <;> simp only [bits] at hb <;> congr 1 <;>
    first
    | exact UInt8.toNat_inj.1 hb
    | exact UInt16.toNat_inj.1 hb
    | exact UInt32.toNat_inj.1 hb
    | exact UInt64.toNat_inj.1 hb
    | simpa using congrArg UInt8.toInt8 (UInt8.toNat_inj.1 hb)
    | simpa using congrArg UInt16.toInt16 (UInt16.toNat_inj.1 hb)
    | simpa using congrArg UInt32.toInt32 (UInt32.toNat_inj.1 hb)
    | simpa using congrArg UInt64.toInt64 (UInt64.toNat_inj.1 hb)

theorem bits_lt (x : Scalar) : x.bits < 256 ^ x.width := by
  cases x <;> first | exact UInt8.toNat_lt _ | exact UInt16.toNat_lt _ | exact UInt32.toNat_lt _ | exact UInt64.toNat_lt _

@[simp] theorem length_encode (x : Scalar) : x.encode.length = x.width := length_toBE _ _

@[simp] theorem length_image (x : Scalar) : x.image.length = x.width := length_toLE _ _

end Scalar

/-! ## What the operators do -/

theorem toLE_bswap (w n : Nat) : toLE w (bswap w n) = toBE w n := by
  have h := toLE_ofLE (toLE w n).reverse
  rwa [List.length_reverse, length_toLE] at h

theorem bswap_lt (w n : Nat) : bswap w n < 256 ^ w := by
  have h := ofLE_lt (toLE w n).reverse
  rwa [List.length_reverse, length_toLE] at h

theorem bswap_ofLE {w : Nat} {b : List UInt8} (h : b.length = w) : bswap w (ofLE b) = ofBE b := by
  subst h
  rw [bswap, toLE_ofLE, ofBE]

theorem toLE_htobe16 (v : UInt16) : toLE 2 (htobe16 v).toNat = toBE 2 v.toNat := by
  have hv : bswap 2 v.toNat < 2 ^ 16 := bswap_lt 2 _
  rw [htobe16, UInt16.toNat_ofNat', Nat.mod_eq_of_lt hv, toLE_bswap]

theorem toLE_htobe32 (v : UInt32) : toLE 4 (htobe32 v).toNat = toBE 4 v.toNat := by
  have hv : bswap 4 v.toNat < 2 ^ 32 := bswap_lt 4 _
  rw [htobe32, UInt32.toNat_ofNat', Nat.mod_eq_of_lt hv, toLE_bswap]

theorem toLE_htobe64 (v : UInt64) : toLE 8 (htobe64 v).toNat = toBE 8 v.toNat := by
  have hv : bswap 8 v.toNat < 2 ^ 64 := bswap_lt 8 _
  rw [htobe64, UInt64.toNat_ofNat', Nat.mod_eq_of_lt hv, toLE_bswap]

theorem be16toh_ofLE {b : List UInt8} (h : b.length = 2) : (be16toh (.ofNat (ofLE b))).toNat = ofBE b := by
  have hb : ofLE b < 2 ^ 16 := (ofLE_lt b).trans_eq (by rw [h]; norm_num)
  have hv : bswap 2 (ofLE b) < 2 ^ 16 := bswap_lt 2 _
  rw [be16toh, UInt16.toNat_ofNat', UInt16.toNat_ofNat', Nat.mod_eq_of_lt hb, Nat.mod_eq_of_lt hv, bswap_ofLE h]

theorem be32toh_ofLE {b : List UInt8} (h : b.length = 4) : (be32toh (.ofNat (ofLE b))).toNat = ofBE b := by
  have hb : ofLE b < 2 ^ 32 := (ofLE_lt b).trans_eq (by rw [h]; norm_num)
  have hv : bswap 4 (ofLE b) < 2 ^ 32 := bswap_lt 4 _
  rw [be32toh, UInt32.toNat_ofNat', UInt32.toNat_ofNat', Nat.mod_eq_of_lt hb, Nat.mod_eq_of_lt hv, bswap_ofLE h]

theorem be64toh_ofLE {b : List UInt8} (h : b.length = 8) : (be64toh (.ofNat (ofLE b))).toNat = ofBE b := by
  have hb : ofLE b < 2 ^ 64 := (ofLE_lt b).trans_eq (by rw [h]; norm_num)
  have hv : bswap 8 (ofLE b) < 2 ^ 64 := bswap_lt 8 _
  rw [be64toh, UInt64.toNat_ofNat', UInt64.toNat_ofNat', Nat.mod_eq_of_lt hb, Nat.mod_eq_of_lt hv, bswap_ofLE h]

theorem ofNat_ofLE {b : List UInt8} (h : b.length = 1) : (UInt8.ofNat (ofLE b)).toNat = ofBE b := by
  obtain ⟨v, rfl⟩ := List.length_eq_one_iff.1 h
  simp [ofLE, ofBE]

namespace Scalar

/-- Every `operator<<` writes the encoding of its value. -/
theorem shl_eq (x : Scalar) : x.shl = writeOutputBuffer x.encode := by
  cases x with
  | char v => rfl
  | u8 v => rfl
  | i8 v => rfl
  | u16 v => exact congrArg writeOutputBuffer (toLE_htobe16 v)
  | i16 v => exact congrArg writeOutputBuffer (toLE_htobe16 _)
  | u32 v => exact congrArg writeOutputBuffer (toLE_htobe32 v)
  | i32 v => exact congrArg writeOutputBuffer (toLE_htobe32 _)
  | u64 v => exact congrArg writeOutputBuffer (toLE_htobe64 v)
  | i64 v => exact congrArg writeOutputBuffer (toLE_htobe64 _)
  | float v => exact congrArg writeOutputBuffer (toLE_htobe32 v)
  | double v => exact congrArg writeOutputBuffer (toLE_htobe64 v)

/-- Every `operator>>` reads over its variable and decodes what is there then. -/
theorem shr_eq (x : Scalar) : x.shr = readInputBuffer x.image >>= fun b => pure (x.decode b) := by
  cases x <;> simp [shr, shrChar, shrU8, shrI8, shrU16, shrI16, shrU32, shrI32, shrU64, shrI64, shrFloat, shrDouble,
    shrFixed, image, width, ty, Ty.width, bits, decode]

@[simp] theorem ty_decode (x : Scalar) (b : List UInt8) : (x.decode b).ty = x.ty := by
  cases x <;> simp only [decode, ty]

theorem bits_decode (x : Scalar) {b : List UInt8} (h : b.length = x.width) : (x.decode b).bits = ofBE b := by
  cases x with
  | char v => exact ofNat_ofLE h
  | u8 v => exact ofNat_ofLE h
  | i8 v => simpa [decode, bits] using ofNat_ofLE h
  | u16 v => exact be16toh_ofLE h
  | i16 v => simpa [decode, bits] using be16toh_ofLE h
  | u32 v => exact be32toh_ofLE h
  | i32 v => simpa [decode, bits] using be32toh_ofLE h
  | u64 v => exact be64toh_ofLE h
  | i64 v => simpa [decode, bits] using be64toh_ofLE h
  | float v => exact be32toh_ofLE h
  | double v => exact be64toh_ofLE h

/-- The value decoded from some bytes is the one they encode. -/
theorem encode_decode (x : Scalar) {b : List UInt8} (h : b.length = x.width) : (x.decode b).encode = b := by
  rw [encode, bits_decode x h, width, ty_decode]
  have h' := toBE_ofBE b
  rwa [h] at h'

/-- Values of one type with one encoding are equal. -/
theorem encode_inj {x y : Scalar} (ht : x.ty = y.ty) (h : x.encode = y.encode) : x = y := by
  refine ext_bits ht ?_
  have h' := congrArg ofBE h
  rw [encode, encode, ofBE_toBE, ofBE_toBE, Nat.mod_eq_of_lt x.bits_lt, Nat.mod_eq_of_lt y.bits_lt] at h'
  exact h'

end Scalar

section Spec

variable {L : (q : Call) → Answer q → Prop} {s : BufferedSocket}

/-- What an `operator>>` into a variable that holds `x` does. -/
structure ShrPost (x : Scalar) (s : BufferedSocket) (evs : List Event) (r : Except Exc Scalar)
    (s' : BufferedSocket) : Prop where
  inv : Inv s'
  kept : OutputKept s s' evs
  ok : ∀ y, r = .ok y → y.ty = x.ty ∧ (s.unread ++ taken evs = y.encode ++ s'.unread ∨
    ShortWait evs ∧ s'.unread = [] ∧ y = x.decode (splice x.image 0 (s.unread ++ taken evs)))
  error : ∀ e, r = .error e → s.unread ++ taken evs = s'.unread ∧ Thrown evs e

theorem shr_spec (hi : Inv s) (x : Scalar) : Eff.Sat L x.shr s (ShrPost x s) := by
  rw [Scalar.shr_eq]
  refine (readInputBuffer_spec hi x.image).bind ?_ ?_
  · intro evs b s' _ h
    obtain ⟨hlen, hok⟩ := h.ok b rfl
    rw [Scalar.length_image] at hlen
    rw [Eff.sat_pure, List.append_nil]
    refine ⟨h.inv, h.kept, ?_, by rintro _ ⟨⟩⟩
    rintro _ ⟨⟩
    refine ⟨x.ty_decode b, hok.imp (fun h' => ?_) fun ⟨h₁, h₂, h₃⟩ => ⟨h₁, h₂, by rw [h₃]⟩⟩
    rw [x.encode_decode hlen]; exact h'
  · intro evs e s' _ h
    exact ⟨h.inv, h.kept, by rintro _ ⟨⟩, by rintro _ ⟨⟩; exact h.error e rfl⟩

/-! ## Strings -/

/-- What reading the string `str`, whose terminator is buffered too, does: `left` is the unread
input after the string. A read that throws has lost the characters it had read. -/
structure CharsPost (val str left : List UInt8) (s : BufferedSocket) (evs : List Event)
    (r : Except Exc (List UInt8)) (s' : BufferedSocket) : Prop where
  inv : Inv s'
  kept : OutputKept s s' evs
  ok : ∀ v, r = .ok v → v = val ++ str ∧ s'.unread = left ++ taken evs
  error : ∀ e, r = .error e →
    (∃ pre, pre <+: str ∧ s.unread ++ taken evs = pre ++ s'.unread) ∧ Thrown evs e

/-- A read of no more bytes than are buffered is never short. -/
theorem ReadPost.buffered {buffer bs : List UInt8} {evs : List Event} {s' : BufferedSocket}
    (h : ReadPost buffer s evs (.ok bs) s') (hle : buffer.length ≤ s.unread.length) :
    bs.length = buffer.length ∧ s.unread ++ taken evs = bs ++ s'.unread := by
  rcases h.ok bs rfl with ⟨hlen, h₁ | ⟨-, h₂, rfl⟩⟩
  · exact ⟨hlen, h₁⟩
  · refine ⟨hlen, ?_⟩
    have hdrop : buffer.drop (s.unread ++ taken evs).length = [] := by
      rw [List.drop_eq_nil_iff, List.length_append]
      omega
    rw [splice_zero, hdrop, h₂, List.append_nil, List.append_nil]

/-- A value that is buffered as a whole is decoded from its bytes. -/
theorem shr_buffered (hi : Inv s) (x : Scalar) (hle : x.width ≤ s.unread.length) : Eff.Sat L x.shr s fun evs r s' =>
    ∀ y, r = .ok y → y.ty = x.ty ∧ s.unread ++ taken evs = y.encode ++ s'.unread := by
  rw [x.shr_eq]
  refine (readInputBuffer_spec hi x.image).bind ?_ ?_
  · rintro evs b s' - h
    obtain ⟨hlen, hbytes⟩ := h.buffered (by rwa [x.length_image])
    rw [x.length_image] at hlen
    rw [Eff.sat_pure, List.append_nil]
    rintro _ ⟨⟩
    refine ⟨x.ty_decode b, ?_⟩
    rw [x.encode_decode hlen]
    exact hbytes
  · rintro evs e s' - - y ⟨⟩

theorem readChars_spec (tl : List UInt8) : ∀ (str : List UInt8) (s : BufferedSocket) (c : UInt8) (val : List UInt8),
    Inv s → s.unread = str ++ 0 :: tl →
      Eff.Sat L (readChars c str.length val) s (CharsPost val str (0 :: tl) s)
  | [], s, c, val, hi, hu => by
    refine ⟨hi, .refl s, ?_, by rintro _ ⟨⟩⟩
    rintro _ ⟨⟩
    exact ⟨(List.append_nil _).symm, by simpa using hu⟩
  | b :: str, s, c, val, hi, hu => by
    rw [List.length_cons, readChars]
    refine (readInputBuffer_spec hi [c]).bind ?_ ?_
    · intro evs bs s₁ _ h
      obtain ⟨hlen, hbs⟩ := h.buffered (by rw [hu]; simp)
      obtain ⟨b', rfl⟩ := List.length_eq_one_iff.1 hlen
      rw [hu] at hbs
      simp only [List.cons_append, List.nil_append, List.cons.injEq, List.append_assoc] at hbs
      obtain ⟨rfl, hu₁⟩ := hbs
      refine (readChars_spec (tl ++ taken evs) str s₁ b (val ++ [b]) h.inv hu₁.symm).mono ?_
      intro evs' r s' _ h'
      refine ⟨h'.inv, h.kept.trans h'.kept, fun v hv => ?_, fun e he => ?_⟩
      · obtain ⟨rfl, hs'⟩ := h'.ok v hv
        exact ⟨by simp, by simp [hs']⟩
      · obtain ⟨⟨pre, hpre, hs'⟩, he'⟩ := h'.error e he
        refine ⟨⟨b :: pre, List.cons_prefix_cons.2 ⟨rfl, hpre⟩, ?_⟩, he'.append_left evs⟩
        rw [List.cons_append, ← hs', ← hu₁, hu, taken_append]
        simp
    · intro evs e s' _ h
      refine ⟨h.inv, h.kept, by rintro _ ⟨⟩, ?_⟩
      rintro _ ⟨⟩
      obtain ⟨h₁, h₂⟩ := h.error e rfl
      exact ⟨⟨[], List.nil_prefix, h₁⟩, h₂⟩

/-- A string read that makes the calls `evs` does not look for a terminator in vain: one is unread, or
in what the first `recv` gets, or that `recv` throws and ends the read. -/
def InTime (s : BufferedSocket) (evs : List Event) : Prop := FirstThrows s evs ∨ 0 ∈ s.unread ++ firstRecv s evs

instance (s : BufferedSocket) (evs : List Event) : Decidable (InTime s evs) :=
  inferInstanceAs (Decidable (FirstThrows s evs ∨ 0 ∈ s.unread ++ firstRecv s evs))

/-- What an `operator>>(std::string &)` does when it does not look for a terminator in vain. -/
structure StringPost (s : BufferedSocket) (evs : List Event) (r : Except Exc (List UInt8))
    (s' : BufferedSocket) : Prop where
  inv : Inv s'
  kept : OutputKept s s' evs
  ok : ∀ v, r = .ok v → 0 ∉ v ∧ s.unread ++ taken evs = v ++ 0 :: s'.unread
  error : ∀ e, r = .error e → Thrown evs e

theorem strlenAt_spec {str tl : List UInt8} (hi : Inv s) (hu : s.unread = str ++ 0 :: tl) (hs : 0 ∉ str)
    {Post : List Event → Except Exc Nat → BufferedSocket → Prop}
    (hP : Inv (s.touched ⟨.input, s.inRd, str.length + 1⟩) →
      Post [] (.ok str.length) (s.touched ⟨.input, s.inRd, str.length + 1⟩)) :
    Eff.Sat L (strlenAt s.inRd) s Post := by
  have hlen := hi.length_unread
  have hrd := hi.rd
  have hsize := hi.size
  rw [hu] at hlen
  simp only [List.length_append, List.length_cons] at hlen
  have hmem : s.bufferIn.bytes.drop s.inRd =
      str ++ 0 :: (tl ++ (s.bufferIn.bytes.drop s.inRd).drop (s.inSize - s.inRd)) := by
    have h := (List.take_append_drop (s.inSize - s.inRd) (s.bufferIn.bytes.drop s.inRd)).symm
    have hu' : (s.bufferIn.bytes.drop s.inRd).take (s.inSize - s.inRd) = str ++ 0 :: tl := hu
    rw [hu'] at h
    simpa using h
  unfold strlenAt
  rw [Eff.sat_bind, Eff.sat_get]
  dsimp only
  rw [hmem, strlen_append hs]
  dsimp only
  rw [Eff.sat_bind]
  exact touch_spec hi (by simp only [Access.Inside]; omega) hP

theorem shrString_spec (hi : Inv s) (c : UInt8) : Eff.Sat L (shrString c) s fun evs r s' =>
    InTime s evs → StringPost s evs r s' := by
  unfold shrString
  refine (recvIfPossible_spec hi).bind ?_ ?_
  · rintro evs ⟨⟩ s₁ - ⟨hi₁, hk₁, hu₁, hf, hno⟩
    by_cases hnul : 0 ∈ s₁.unread
    · obtain ⟨str, tl, hstr, hs⟩ := exists_cstring hnul
      rw [Eff.sat_bind, Eff.sat_get]
      dsimp only
      rw [Eff.sat_bind]
      refine strlenAt_spec hi₁ hstr hs fun hi₂ => ?_
      refine (readChars_spec tl str _ c [] hi₂ hstr).bind ?_ ?_
      · intro evs' v s₃ _ h
        obtain ⟨rfl, hu₃⟩ := h.ok v rfl
        rw [Eff.sat_bind, Eff.sat_modify]
        intro _
        have hl₃ := h.inv.length_unread
        rw [hu₃] at hl₃
        simp only [List.cons_append, List.length_cons] at hl₃
        have hn : s₃.inRd + 1 ≤ s₃.inSize := by omega
        have hu₄ := unread_advanced hn
        have hone : (slice s₃.bufferIn.bytes s₃.inRd 1).length = 1 := length_slice (by
          have := h.inv.size; have := h.inv.length; omega)
        obtain ⟨z, hz⟩ := List.length_eq_one_iff.1 hone
        rw [hu₃, hz, List.cons_append, List.cons_append, List.nil_append, List.cons.injEq] at hu₄
        have hk₃ := hk₁.trans h.kept.of_touched
        have hk : OutputKept s (s₃.advanced 1) (evs ++ ([] ++ (evs' ++ []))) := by
          simpa using (⟨⟨hk₃.inCapacity, hk₃.outCapacity⟩, hk₃.outSize, hk₃.pending, hk₃.sent⟩ :
            OutputKept s (s₃.advanced 1) (evs ++ evs'))
        refine ⟨h.inv.advanced hn, hk, ?_, by rintro _ ⟨⟩⟩
        rintro _ ⟨⟩
        refine ⟨hs, ?_⟩
        show _ = _ ++ 0 :: (s₃.advanced 1).unread
        rw [← hu₄.2]
        simp only [taken_append, List.append_nil, List.nil_append]
        rw [← List.append_assoc, ← hu₁, hstr]
        simp
      · intro evs' e s' _ h _
        exact ⟨h.inv, hk₁.trans h.kept.of_touched, by rintro _ ⟨⟩,
          by rintro _ ⟨⟩; exact (h.error e rfl).2.append_left evs⟩
    · -- no terminator in time, and nothing is promised
      refine .of_forall fun evs' r s' h => absurd (h.resolve_left (hno evs')) ?_
      rw [hf, ← hu₁]; exact hnul
  · rintro evs e s' - ⟨hi', hk, hu, -, he⟩ _
    exact ⟨hi', hk, by rintro _ ⟨⟩, by rintro _ ⟨⟩; exact he⟩

end Spec

end Fdcpp.Buffered
