import RestArchive.Text.Percent

/-! # Percent encoding and back

A text is decoded from its bytes (`decodeUtf8?_bytesOf`), whichever characters it has, and so it is when
each of the bytes is written as a percent sign and two digits (`percentDecoded?_percentEncoded`). What
is written in this way holds no character that would end a segment of a path
(`mem_percentEncoded`). -/

namespace RestArchive.Text

/-! ## Decoding the bytes of characters -/

/-- A byte in its range goes on with the character begun, when more are to come. -/
theorem decodeFrom_more {low high p : Nat} (hp : p < 64) (hlow : low ≤ p + 0x80)
    (hhigh : p + 0x80 ≤ high) (bits left : Nat) (rest : List UInt8) :
    decodeFrom (some ⟨bits, left + 2, low, high⟩) (UInt8.ofNat (p + 0x80) :: rest) =
      decodeFrom (some ⟨bits * 64 + p, left + 1, 0x80, 0xBF⟩) rest := by
  have hbyte : (UInt8.ofNat (p + 0x80)).toNat = p + 0x80 :=
    UInt8.toNat_ofNat_of_lt' (show p + 0x80 < 256 by omega)
  rw [decodeFrom, hbyte, if_pos ⟨hlow, hhigh⟩, if_neg (show ¬ left + 2 ≤ 1 by omega),
    Nat.add_sub_cancel]
  rfl

/-- The last byte of a character ends it. -/
theorem decodeFrom_last {p : Nat} (hp : p < 64) (bits : Nat) (rest : List UInt8) :
    decodeFrom (some ⟨bits, 1, 0x80, 0xBF⟩) (UInt8.ofNat (p + 0x80) :: rest) =
      some (Char.ofNat (bits * 64 + p)) :: decodeFrom none rest := by
  have hbyte : (UInt8.ofNat (p + 0x80)).toNat = p + 0x80 :=
    UInt8.toNat_ofNat_of_lt' (show p + 0x80 < 256 by omega)
  have hrange : 0x80 ≤ p + 0x80 ∧ p + 0x80 ≤ 0xBF := ⟨by omega, by omega⟩
  rw [decodeFrom, hbyte, if_pos hrange, if_pos (Nat.le_refl 1), Nat.add_sub_cancel]

/-- A first byte begins a character. -/
theorem decodeFrom_none {char : PartialChar} {b : Nat} (hb : b < 256)
    (hfirst : firstByte b = .begun char) (rest : List UInt8) :
    decodeFrom none (UInt8.ofNat b :: rest) = decodeFrom (some char) rest := by
  have hbyte : (UInt8.ofNat b).toNat = b := UInt8.toNat_ofNat_of_lt' hb
  rw [decodeFrom, hbyte, hfirst]

/-- What the first byte of a character of two bytes is. -/
theorem firstByte_of_two {n : Nat} (hlow : 0x80 ≤ n) (hhigh : n < 0x800) :
    firstByte (n / 64 % 32 + 0xC0) = .begun ⟨n / 64, 1, 0x80, 0xBF⟩ := by
  have hbits : n / 64 % 32 + 0xC0 - 0xC0 = n / 64 := by omega
  rw [firstByte, if_neg (by omega), if_pos (by omega), hbits]

/-- What the first byte of a character of three bytes is. It leaves the second byte in the range in which
numbers of more than two bytes are no surrogates. -/
theorem exists_firstByte_of_three {n : Nat} (hlow : 0x800 ≤ n) (hhigh : n < 0x10000)
    (hvalid : n < 0xD800 ∨ 0xDFFF < n) :
    ∃ low high, firstByte (n / 4096 % 16 + 0xE0) = .begun ⟨n / 4096, 2, low, high⟩ ∧
      low ≤ n / 64 % 64 + 0x80 ∧ n / 64 % 64 + 0x80 ≤ high := by
  -- Behind 0xE0 no shorter form may follow, and behind 0xED no surrogate.
  by_cases hfirst : n / 4096 = 0
  · exact ⟨0xA0, 0xBF, by simp [hfirst, firstByte], by omega, by omega⟩
  by_cases hsurrogate : n / 4096 = 13
  · exact ⟨0x80, 0x9F, by simp [hsurrogate, firstByte], by omega, by omega⟩
  have hbits : n / 4096 % 16 + 0xE0 - 0xE0 = n / 4096 := by omega
  refine ⟨0x80, 0xBF, ?_, by omega, by omega⟩
  rw [firstByte, if_neg (by omega), if_neg (by omega), if_neg (by omega), if_neg (by omega),
    if_pos (by omega), hbits]

/-- What the first byte of a character of four bytes is. It leaves the second byte in the range of the
numbers of more than three bytes up to the last one. -/
theorem exists_firstByte_of_four {n : Nat} (hlow : 0x10000 ≤ n) (hhigh : n < 0x110000) :
    ∃ low high, firstByte (n / 262144 % 8 + 0xF0) = .begun ⟨n / 262144, 3, low, high⟩ ∧
      low ≤ n / 4096 % 64 + 0x80 ∧ n / 4096 % 64 + 0x80 ≤ high := by
  -- Behind 0xF0 no shorter form may follow, and behind 0xF4 nothing past the last number.
  by_cases hfirst : n / 262144 = 0
  · exact ⟨0x90, 0xBF, by simp [hfirst, firstByte], by omega, by omega⟩
  by_cases hlast : n / 262144 = 4
  · exact ⟨0x80, 0x8F, by simp [hlast, firstByte], by omega, by omega⟩
  have hbits : n / 262144 % 8 + 0xF0 - 0xF0 = n / 262144 := by omega
  refine ⟨0x80, 0xBF, ?_, by omega, by omega⟩
  rw [firstByte, if_neg (by omega), if_neg (by omega), if_neg (by omega), if_neg (by omega),
    if_neg (by omega), if_neg (by omega), if_pos (by omega), hbits]

/-- The bytes of a character are decoded as it. -/
theorem decodeFrom_utf8EncodeChar (c : Char) (rest : List UInt8) :
    decodeFrom none (String.utf8EncodeChar c ++ rest) = some c :: decodeFrom none rest := by
  obtain ⟨n, hn⟩ : ∃ n, n = c.toNat := ⟨_, rfl⟩
  have hchar : Char.ofNat n = c := by rw [hn, Char.ofNat_toNat]
  have hvalid : n < 0xD800 ∨ 0xDFFF < n ∧ n < 0x110000 := hn ▸ c.valid
  -- The encoder's own cases; in each of them the bits are put together to the number again.
  have hencode : String.utf8EncodeChar c =
      if n ≤ 127 then [UInt8.ofNat n]
      else if n ≤ 2047 then [UInt8.ofNat (n / 64 % 32 + 0xC0), UInt8.ofNat (n % 64 + 0x80)]
      else if n ≤ 65535 then [UInt8.ofNat (n / 4096 % 16 + 0xE0), UInt8.ofNat (n / 64 % 64 + 0x80),
        UInt8.ofNat (n % 64 + 0x80)]
      else [UInt8.ofNat (n / 262144 % 8 + 0xF0), UInt8.ofNat (n / 4096 % 64 + 0x80),
        UInt8.ofNat (n / 64 % 64 + 0x80), UInt8.ofNat (n % 64 + 0x80)] := hn ▸ rfl
  have hmod : ∀ m, m % 64 < 64 := fun m => Nat.mod_lt m (by decide)
  rw [hencode]
  split
  case isTrue hone =>
    have hbyte : (UInt8.ofNat n).toNat = n := UInt8.toNat_ofNat_of_lt' (show n < 256 by omega)
    rw [List.singleton_append, decodeFrom, hbyte, firstByte, if_pos (by omega), hchar]
  split
  case isTrue htwo =>
    have hbits : n / 64 * 64 + n % 64 = n := by omega
    rw [List.cons_append, List.singleton_append,
      decodeFrom_none (by omega) (firstByte_of_two (by omega) (by omega)),
      decodeFrom_last (hmod n), hbits, hchar]
  split
  case isTrue hthree =>
    obtain ⟨low, high, hfirst, hlow, hhigh⟩ :=
      exists_firstByte_of_three (show 0x800 ≤ n by omega) (by omega) (by omega)
    have hbits : (n / 4096 * 64 + n / 64 % 64) * 64 + n % 64 = n := by omega
    rw [List.cons_append, List.cons_append, List.singleton_append,
      decodeFrom_none (by omega) hfirst, decodeFrom_more (hmod _) hlow hhigh _ 0,
      decodeFrom_last (hmod n), hbits, hchar]
  case isFalse hfour =>
    obtain ⟨low, high, hfirst, hlow, hhigh⟩ :=
      exists_firstByte_of_four (show 0x10000 ≤ n by omega) (by omega)
    have hbits : ((n / 262144 * 64 + n / 4096 % 64) * 64 + n / 64 % 64) * 64 + n % 64 = n := by
      omega
    have hrange : 0x80 ≤ n / 64 % 64 + 0x80 ∧ n / 64 % 64 + 0x80 ≤ 0xBF := ⟨by omega, by omega⟩
    rw [List.cons_append, List.cons_append, List.cons_append, List.singleton_append,
      decodeFrom_none (by omega) hfirst, decodeFrom_more (hmod _) hlow hhigh _ 1,
      decodeFrom_more (hmod _) hrange.1 hrange.2 _ 0, decodeFrom_last (hmod n), hbits, hchar]

/-- The bytes of characters are decoded as them. -/
theorem decodeFrom_flatMap (chars : List Char) :
    decodeFrom none (chars.flatMap String.utf8EncodeChar) = chars.map some := by
  induction chars with
  | nil => rfl
  | cons c chars ih => rw [List.flatMap_cons, decodeFrom_utf8EncodeChar, ih, List.map_cons]

/-- The bytes that are still to be listed stand behind those that are. -/
theorem toList_loop (bytes : ByteArray) (i : Nat) (listed : List UInt8) :
    ByteArray.toList.loop bytes i listed = listed.reverse ++ bytes.data.toList.drop i := by
  fun_induction ByteArray.toList.loop bytes i listed with
  | case1 i listed h ih =>
    have hlt : i < bytes.data.size := h
    have hget : bytes.get! i = bytes.data[i] := getElem!_pos bytes.data i hlt
    have hdrop : bytes.data.toList.drop i = bytes.data[i] :: bytes.data.toList.drop (i + 1) :=
      List.drop_eq_getElem_cons (by simpa using hlt)
    rw [ih, hdrop, hget, List.reverse_cons, List.append_assoc, List.singleton_append]
  | case2 i listed h =>
    have hle : bytes.data.toList.length ≤ i := by simpa using h
    rw [List.drop_eq_nil_of_le hle, List.append_nil]

/-- The bytes of a text are those of its characters. -/
theorem bytesOf_eq (text : String) : bytesOf text = text.toList.flatMap String.utf8EncodeChar := by
  have hbytes : text.toUTF8 = text.toList.utf8Encode := by simp [String.toUTF8]
  rw [bytesOf, ByteArray.toList, toList_loop, List.reverse_nil, List.nil_append, List.drop_zero,
    hbytes, List.utf8Encode, List.toList_data_toByteArray]

/-- A text is decoded from its bytes. -/
theorem decodeUtf8?_bytesOf (text : String) : decodeUtf8? (bytesOf text) = some text := by
  simp only [decodeUtf8?, bytesOf_eq, decodeFrom_flatMap]
  simp [List.all_map, List.filterMap_map, Function.comp_def]

/-! ## Writing bytes with percent signs -/

/-- A byte as a percent sign and two hexadecimal digits. -/
def percentEncodedByte (byte : UInt8) : List Char :=
  ['%', Nat.digitChar (byte.toNat / 16), Nat.digitChar (byte.toNat % 16)]

/-- A text with all its bytes written so. -/
def percentEncoded (text : String) : String :=
  String.ofList ((bytesOf text).flatMap percentEncodedByte)

/-- The byte of a hexadecimal digit. -/
def digitByte (n : Nat) : UInt8 := UInt8.ofNat (Nat.digitChar n).toNat

/-- A hexadecimal digit has one byte, which is read as its value. -/
theorem utf8EncodeChar_digitChar : ∀ n < 16,
    String.utf8EncodeChar (Nat.digitChar n) = [digitByte n] ∧
      hexByteValue? (digitByte n) = some (UInt8.ofNat n) := by
  decide

/-- A byte is put together of its two halves. -/
theorem eq_of_halves (byte : UInt8) :
    16 * UInt8.ofNat (byte.toNat / 16) + UInt8.ofNat (byte.toNat % 16) = byte := by
  have hlt : byte.toNat < 256 := byte.toNat_lt
  rw [← UInt8.toNat_inj]
  simp only [UInt8.toNat_add, UInt8.toNat_mul, UInt8.toNat_ofNat', UInt8.toNat_ofNat]
  omega

/-- What a byte is written as is decoded as it. -/
theorem percentDecode_percentEncodedByte (byte : UInt8) (rest : List UInt8) :
    percentDecode ((percentEncodedByte byte).flatMap String.utf8EncodeChar ++ rest) =
      byte :: percentDecode rest := by
  have hlt : byte.toNat < 256 := byte.toNat_lt
  obtain ⟨hfirst, hhigh⟩ := utf8EncodeChar_digitChar (byte.toNat / 16) (by omega)
  obtain ⟨hsecond, hlow⟩ := utf8EncodeChar_digitChar (byte.toNat % 16) (by omega)
  have hpercent : String.utf8EncodeChar '%' = [37] := by decide
  simp only [percentEncodedByte, List.flatMap_cons, List.flatMap_nil, hpercent, hfirst, hsecond,
    List.append_nil, List.cons_append, List.nil_append, percentDecode, hhigh, hlow, eq_of_halves]

/-- What a text is written as is decoded as it. -/
theorem percentDecoded?_percentEncoded (text : String) :
    percentDecoded? (percentEncoded text) = some text := by
  have hbytes : ∀ bytes : List UInt8, percentDecode
      ((bytes.flatMap percentEncodedByte).flatMap String.utf8EncodeChar) = bytes := by
    intro bytes
    induction bytes with
    | nil => rfl
    | cons byte bytes ih =>
      rw [List.flatMap_cons, List.flatMap_append, percentDecode_percentEncodedByte, ih]
  rw [percentDecoded?, bytesOf_eq, percentEncoded, String.toList_ofList, hbytes, decodeUtf8?_bytesOf]

/-- What a text is written as has percent signs and hexadecimal digits only. -/
theorem mem_percentEncoded {text : String} {c : Char} (h : c ∈ (percentEncoded text).toList) :
    c = '%' ∨ ∃ n < 16, c = Nat.digitChar n := by
  rw [percentEncoded, String.toList_ofList, List.mem_flatMap] at h
  obtain ⟨byte, -, hmem⟩ := h
  have hlt : byte.toNat < 256 := byte.toNat_lt
  simp only [percentEncodedByte, List.mem_cons, List.not_mem_nil, or_false] at hmem
  rcases hmem with rfl | rfl | rfl
  · exact Or.inl rfl
  · exact Or.inr ⟨_, by omega, rfl⟩
  · exact Or.inr ⟨_, by omega, rfl⟩

/-- What a text is written as starts with a percent sign, if there is any text. -/
theorem exists_percentEncoded_eq {text : String} (h : text ≠ "") :
    ∃ rest, (percentEncoded text).toList = '%' :: rest := by
  have hbytes : bytesOf text ≠ [] := by
    obtain ⟨c, rest, hchars⟩ := List.exists_cons_of_ne_nil (show text.toList ≠ [] by simpa using h)
    simp [bytesOf_eq, hchars, String.utf8EncodeChar_ne_nil]
  obtain ⟨byte, bytes, hcons⟩ := List.exists_cons_of_ne_nil hbytes
  rw [percentEncoded, String.toList_ofList, hcons]
  exact ⟨_, rfl⟩

end RestArchive.Text
