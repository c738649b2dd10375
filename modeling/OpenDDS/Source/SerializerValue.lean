import OpenDDS.Source.SerializerWrite

/-!
Values that are inserted by one serializer and extracted by another: the extraction that
belongs to an insertion, and what it finds in a stream that holds the encoding of the
value.
-/
namespace OpenDDS.Source.Serializer
open Library Library.Chain

def Value.extraction : Value → Extraction
  | .primitive t _ => .primitive t
  | .array t xs _ => .array t (BitVec.ofNat 32 xs.length)
  | .string _ => .string

/-- The value as an extraction returns it; a string comes with its terminator. -/
def Value.datum : Value → Datum
  | .primitive t x => .primitive t x
  | .array t xs _ => .array t xs
  | .string x => .string (x.map CString.memory)

/-- The string is there and its length with the terminator fits its prefix. -/
def Value.Representable : Value → Prop
  | .string none => False
  | .string (some s) => s.chars.length + 1 < 2 ^ 32
  | _ => True

variable (host : ByteOrder)

theorem ordered_ordered (swap : Bool) (bytes : List UInt8) :
    ordered swap (ordered swap bytes) = bytes := by
  cases swap <;> simp [ordered]

theorem ofBytes_image {size : Nat} (x : BitVec (8 * size)) :
    BitVec.ofNat (8 * size) (host.ofBytes (image host x)) = x := by
  have hlt : x.toNat < 256 ^ size := by
    have h := x.isLt
    rwa [Nat.pow_mul] at h
  rw [image, host.ofBytes_toBytes hlt, BitVec.ofNat_toNat, BitVec.setWidth_eq]

theorem elements_images {size : Nat} (xs : List (BitVec (8 * size))) :
    elements host size xs.length (xs.map (image host)).flatten = xs := by
  induction xs with
  | nil => rfl
  | cons x xs ih =>
    have hlen := image_length host x
    simp only [List.map_cons, List.flatten_cons, List.length_cons, elements]
    rw [List.take_left' hlen, List.drop_left' hlen, ih, ofBytes_image]

theorem readElements_images {size : Nat} (hsize : size ≤ 16) (images : List (List UInt8))
    (himages : ∀ image ∈ images, image.length = size) (rest : List UInt8) (r : Reader)
    (h : contents r.current = images.flatMap (ordered true) ++ rest) :
    (Reader.readElements size images.length r).1 = images.flatten := by
  induction images generalizing r with
  | nil => rfl
  | cons image images ih =>
    have hlen := himages image (by simp)
    have hordered : (ordered true image).length = size := by rw [ordered_length, hlen]
    rw [List.flatMap_cons, List.append_assoc] at h
    have hfits : size ≤ (contents r.current).length := by
      rw [h, List.length_append]
      omega
    have hmoved : Advanced r (r.bufferRead size true).2 size := bufferRead_advanced r fun _ => hsize
    have hfirst : (r.bufferRead size true).1 = image := by
      rw [bufferRead_bytes r (fun _ => hsize) hfits, h, List.take_left' hordered, ordered_ordered]
    have hrest := ih (fun image h => himages image (by simp [h])) (r.bufferRead size true).2
      (by rw [hmoved.contents, h, List.drop_left' hordered])
    simp only [List.length_cons, Reader.readElements, hfirst, hrest, List.flatten_cons]

theorem readArray_images {size : Nat} (hsize : size ≤ 16) (images : List (List UInt8))
    (himages : ∀ image ∈ images, image.length = size) (swap : Bool) (rest : List UInt8) (r : Reader)
    (h : contents r.current = images.flatMap (ordered swap) ++ rest) :
    (r.readArray size images.length swap).1 = images.flatten := by
  unfold Reader.readArray
  split
  · rename_i hcopy
    rw [flatMap_ordered_copy himages hcopy] at h
    have hlen := length_flatten_images himages
    rw [bufferRead_bytes r (by simp) (by rw [h, List.length_append]; omega), h,
      List.take_left' hlen]
    rfl
  · rename_i hswap
    obtain rfl : swap = true := by
      cases swap with
      | false => simp at hswap
      | true => rfl
    exact readElements_images hsize images himages rest r h

section

variable {r : Reader} {p : Nat} {pad rest : List UInt8}

theorem extract_primitive {t : Primitive} {x : BitVec (8 * t.size)}
    (hat : r.alignment ≠ .none → r.At p)
    (hcur : 1 < t.align → r.alignment ≠ .none → r.current ≠ [])
    (hpad : pad.length = padding r.alignment t.align p)
    (h : contents r.current = pad ++ (ordered (t.swap r.swapBytes) (image host x) ++ rest)) :
    ∃ after, r.extract host (.primitive t) = .ok (.primitive t x, after) ∧
      Advanced r after (padding r.alignment t.align p + t.size) := by
  obtain ⟨aligned, hok, hadv⟩ := alignFor_ok t.align_cases hat hcur
  have hlen : (ordered (t.swap r.swapBytes) (image host x)).length = t.size := by
    rw [ordered_length, image_length]
  have hleft : contents aligned.current =
      ordered (t.swap aligned.swapBytes) (image host x) ++ rest := by
    rw [hadv.contents, h, hadv.swapBytes, List.drop_left' hpad]
  have hbytes : (aligned.bufferRead t.size (t.swap aligned.swapBytes)).1 = image host x := by
    rw [← hadv.swapBytes] at hlen
    rw [bufferRead_bytes aligned (fun _ => t.size_le)
      (by rw [hleft, List.length_append]; omega), hleft, List.take_left' hlen, ordered_ordered]
  refine ⟨(aligned.bufferRead t.size (t.swap aligned.swapBytes)).2, ?_,
    hadv.trans (bufferRead_advanced aligned fun _ => t.size_le)⟩
  simp only [Reader.extract, Reader.readPrimitive, hok, hbytes, ofBytes_image]
  rfl

theorem extract_array {t : Primitive} {xs : List (BitVec (8 * t.size))} (hxs : xs.length < 2 ^ 32)
    (hat : r.alignment ≠ .none → r.At p)
    (hcur : 1 < t.align → r.alignment ≠ .none → r.current ≠ [])
    (hpad : pad.length = padding r.alignment t.align p)
    (h : contents r.current =
      pad ++ ((xs.flatMap fun x => ordered r.swapBytes (image host x)) ++ rest)) :
    ∃ after, r.extract host (.array t (BitVec.ofNat 32 xs.length)) = .ok (.array t xs, after) ∧
      Advanced r after (padding r.alignment t.align p + t.size * xs.length) := by
  obtain ⟨aligned, hok, hadv⟩ := alignFor_ok t.align_cases hat hcur
  have hleft : contents aligned.current =
      (xs.map (image host)).flatMap (ordered aligned.swapBytes) ++ rest := by
    rw [hadv.contents, h, hadv.swapBytes, List.drop_left' hpad, List.flatMap_map]
  have hbytes := readArray_images t.size_le (xs.map (image host)) (by simp [image_length])
    aligned.swapBytes rest aligned hleft
  rw [List.length_map] at hbytes
  have hlength : (BitVec.ofNat 32 xs.length).toNat = xs.length := by
    rw [BitVec.toNat_ofNat, Nat.mod_eq_of_lt hxs]
  refine ⟨(aligned.readArray t.size xs.length aligned.swapBytes).2, ?_,
    hadv.trans (readArray_advanced aligned t.size_le xs.length aligned.swapBytes)⟩
  simp only [Reader.extract, Reader.readPrimitiveArray, hok, hlength, hbytes, elements_images]
  rfl

/-- A length prefix and the characters it announces: they are what is read, unless the
chain ends behind a prefix of zero. -/
theorem extract_counted {n : Nat} {chars : List UInt8} (hn : n < 2 ^ 32) (hchars : chars.length = n)
    (hgood : r.goodBit = true) (hat : r.alignment ≠ .none → r.At p)
    (hcur : 1 < Primitive.ulong.align → r.alignment ≠ .none → r.current ≠ [])
    (hpad : pad.length = padding r.alignment Primitive.ulong.align p)
    (h : contents r.current = pad ++
      (ordered r.swapBytes (host.toBytes Primitive.ulong.size n) ++ (chars ++ rest))) :
    (n = 0 ∧ r.extract host .string = .error .nullCurrent) ∨
    ∃ after, r.extract host .string = .ok (.string (some chars), after) ∧
      Advanced r after (padding r.alignment Primitive.ulong.align p + (Primitive.ulong.size + n)) := by
  obtain ⟨mid, hmid, heq⟩ := readCounted_eq host
    (fun length r => r.readArray 1 length r.swapBytes) hat hcur
  have hbegins : (ordered r.swapBytes (host.toBytes Primitive.ulong.size n)).length =
      Primitive.ulong.size := by rw [ordered_length, ByteOrder.length_toBytes]
  have hlength : announced host r.swapBytes
      ((contents r.current).drop (padding r.alignment Primitive.ulong.align p)) = n := by
    have hlt : n < 256 ^ Primitive.ulong.size := lt_of_lt_of_eq hn (by decide)
    rw [announced, h, List.drop_left' hpad, List.take_left' hbegins, ordered_ordered,
      host.ofBytes_toBytes hlt]
  have hleft : contents mid.current = chars ++ rest := by
    rw [hmid.contents, h, ← List.drop_drop, List.drop_left' hpad, List.drop_left' hbegins]
  have hmidGood : mid.goodBit = true := by
    apply hmid.good_of_le hgood
    rw [h, List.length_append, List.length_append]
    omega
  rw [hlength] at heq
  simp only [hmidGood, if_true] at heq
  unfold Reader.extract Reader.readString
  by_cases hend : mid.current = []
  · left
    rw [hend, contents_nil] at hleft
    have hnil : chars = [] := (List.append_eq_nil_iff.mp hleft.symm).1
    refine ⟨by rw [← hchars, hnil, List.length_nil], ?_⟩
    rw [heq, hend]
    rfl
  · right
    have hread := readArray_advanced mid (by omega : 1 ≤ 16) n mid.swapBytes
    have hfits : n ≤ (contents mid.current).length := by
      rw [hleft, List.length_append]
      omega
    have hbytes : (mid.readArray 1 n mid.swapBytes).1 = chars := by
      unfold Reader.readArray
      rw [if_pos (by simp), Nat.one_mul, bufferRead_bytes mid (by simp) hfits, hleft,
        List.take_left' hchars]
      rfl
    rw [Nat.one_mul] at hread
    have hreadGood := hread.good_of_le hmidGood hfits
    refine ⟨(mid.readArray 1 n mid.swapBytes).2, ?_, ?_⟩
    · have hempty : mid.current.isEmpty = false := by simpa using hend
      have hfits' : n ≤ totalLength mid.current := hfits
      rw [heq, hempty, if_neg (by simp), if_pos hfits', hreadGood, if_pos rfl, hbytes]
      rfl
    · have hall := hmid.trans hread
      rwa [Nat.add_assoc] at hall

/-- A value is read back from its encoding when it is representable, and never comes back
when it is not. -/
theorem extract_value (v : Value) (hgood : r.goodBit = true) (hat : r.alignment ≠ .none → r.At p)
    (hcur : 1 < v.align → r.alignment ≠ .none → r.current ≠ [])
    (hpad : pad.length = padding r.alignment v.align p)
    (h : contents r.current = pad ++ (v.payload host r.swapBytes ++ rest)) :
    (v.Representable → ∃ after, r.extract host v.extraction = .ok (v.datum, after) ∧
      Advanced r after (v.encodedSize r.alignment p)) ∧
    (¬ v.Representable → ∀ x after, r.extract host v.extraction = .ok (x, after) →
      x ≠ v.datum) := by
  cases v with
  | primitive t x =>
    refine ⟨fun _ => ?_, fun hnot => absurd trivial hnot⟩
    exact extract_primitive host hat hcur hpad h
  | array t xs hxs =>
    refine ⟨fun _ => ?_, fun hnot => absurd trivial hnot⟩
    exact extract_array host hxs hat hcur hpad h
  | string x =>
    cases x with
    | none =>
      refine ⟨fun hrep => hrep.elim, fun _ x after hread => ?_⟩
      rcases extract_counted host (by decide) (List.length_nil) hgood hat hcur hpad h with
        ⟨-, herr⟩ | ⟨after', hok, -⟩
      · simp only [Value.extraction] at hread
        rw [herr] at hread
        cases hread
      · simp only [Value.extraction] at hread
        rw [hok] at hread
        cases hread
        simp [Value.datum]
    | some s =>
      have hlen : (s.memory.take s.stringlen).length = s.stringlen := by
        rw [List.length_take]
        have := s.stringlen_le
        omega
      simp only [Value.payload, List.append_assoc] at h
      have hcases := extract_counted host s.stringlen_lt hlen hgood hat hcur hpad h
      have hmemory : s.memory.length = s.chars.length + 1 := by simp [CString.memory]
      constructor
      · intro hrep
        have hfull : s.stringlen = s.chars.length + 1 := by
          have hfits : s.chars.length + 1 < 2 ^ 32 := hrep
          unfold CString.stringlen
          omega
        rcases hcases with ⟨hzero, -⟩ | ⟨after, hok, hadv⟩
        · omega
        · rw [List.take_of_length_le (by omega)] at hok
          exact ⟨after, hok, hadv⟩
      · intro hnot x after hread
        rcases hcases with ⟨-, herr⟩ | ⟨after', hok, -⟩
        · simp only [Value.extraction] at hread
          rw [herr] at hread
          cases hread
        · simp only [Value.extraction] at hread
          rw [hok] at hread
          cases hread
          intro hsame
          have hmem : s.memory.take s.stringlen = s.memory := by simpa [Value.datum] using hsame
          have hshort : s.stringlen < s.chars.length + 1 := by
            have hlong : ¬ s.chars.length + 1 < 2 ^ 32 := hnot
            unfold CString.stringlen
            omega
          rw [hmem] at hlen
          omega

theorem extract_null {v : Value} (hal : 1 < v.align) (ha : r.alignment ≠ .none)
    (hcur : r.current = []) : r.extract host v.extraction = .error .nullCurrent := by
  cases v with
  | primitive t x =>
    have herr : r.alignFor t.align = .error .nullCurrent := alignFor_null hal ha hcur
    simp only [Value.extraction, Reader.extract, Reader.readPrimitive, herr]
    rfl
  | array t xs hxs =>
    have herr : r.alignFor t.align = .error .nullCurrent := alignFor_null hal ha hcur
    simp only [Value.extraction, Reader.extract, Reader.readPrimitiveArray, herr]
    rfl
  | string x =>
    have herr : r.alignFor Primitive.ulong.align = .error .nullCurrent := alignFor_null hal ha hcur
    simp only [Value.extraction, Reader.extract, Reader.readString, Reader.readCounted, herr]
    rfl

end

end OpenDDS.Source.Serializer
