import Chronicle.Medium.Files
import Chronicle.Proofs.Disk.Tree
import Chronicle.Proofs.Text.Padded

/-!
# The names of record files

A name is made of three numerals of fixed width. So names of one extension are
ordered by timestamp and then by running number, and the running number can be taken
from the name.

* `fileName_lt_iff`: the order of names.
* `sequenceOf?_fileName`: the running number in a name.
* `withExtension_fileName`: the name with another extension.
-/

namespace Chronicle.Medium.Files

open Text.Decimal

/-! ## The characters of a name -/

/-- The name up to the point. -/
def stem (t : Timestamp) (n : UInt64) : List Char :=
  (padded 20 t.unixMs.toNat).toList ++ '-' :: ((padded 10 t.logical.toNat).toList ++
    '-' :: (padded 20 n.toNat).toList)

theorem toList_fileName (t : Timestamp) (n : UInt64) (ext : String) :
    (fileName t n ext).toList = stem t n ++ '.' :: ext.toList := by
  have hdash : "-".toList = ['-'] := rfl
  have hpoint : ".".toList = ['.'] := rfl
  simp [fileName, stem, String.toList_append, hdash, hpoint]

theorem length_stem (t : Timestamp) (n : UInt64) : (stem t n).length = 52 := by
  simp only [stem, List.length_append, List.length_cons,
    length_padded (fitsIn_uint64 _), length_padded (fitsIn_uint32 _)]

theorem length_fileName (t : Timestamp) (n : UInt64) (ext : String) :
    (fileName t n ext).toList.length = 53 + ext.toList.length := by
  rw [toList_fileName, List.length_append, length_stem, List.length_cons]
  omega

/-- Digits and dashes. -/
theorem mem_stem {t : Timestamp} {n : UInt64} {c : Char} (h : c ∈ stem t n) :
    c = '-' ∨ c.isDigit = true := by
  simp only [stem, List.mem_append, List.mem_cons] at h
  rcases h with h | rfl | h | rfl | h
  · exact .inr (isDigit_of_mem_padded c h)
  · exact .inl rfl
  · exact .inr (isDigit_of_mem_padded c h)
  · exact .inl rfl
  · exact .inr (isDigit_of_mem_padded c h)

theorem ne_of_mem_stem {t : Timestamp} {n : UInt64} {c d : Char} (h : c ∈ stem t n)
    (hd : d.isDigit = false) (hdash : d ≠ '-') : c ≠ d := by
  rintro rfl
  rcases mem_stem h with rfl | hdigit
  · exact hdash rfl
  · rw [hd] at hdigit
    cases hdigit

theorem toNat_of_mem_stem {t : Timestamp} {n : UInt64} {c : Char} (h : c ∈ stem t n) :
    c.toNat < 128 := by
  rcases mem_stem h with rfl | hdigit
  · decide
  · have := toNat_of_isDigit hdigit
    omega

/-! ## Order -/

/-- Lists that begin with equally many characters are compared by these first. -/
theorem append_lt_append_iff {as bs : List Char} (h : as.length = bs.length)
    (xs ys : List Char) :
    as ++ xs < bs ++ ys ↔ as < bs ∨ (as = bs ∧ xs < ys) := by
  induction as generalizing bs with
  | nil =>
    rw [List.length_eq_zero_iff.1 h.symm]
    simp
  | cons a as ih =>
    obtain ⟨b, bs, rfl⟩ := List.exists_cons_of_length_eq_add_one h.symm
    simp only [List.cons_append, List.cons_lt_cons_iff, ih (Nat.succ.inj h),
      List.cons.injEq]
    constructor
    · rintro (hab | ⟨hab, hlt | ⟨heq, hlt⟩⟩)
      · exact .inl (.inl hab)
      · exact .inl (.inr ⟨hab, hlt⟩)
      · exact .inr ⟨⟨hab, heq⟩, hlt⟩
    · rintro ((hab | ⟨hab, hlt⟩) | ⟨⟨hab, heq⟩, hlt⟩)
      · exact .inl hab
      · exact .inr ⟨hab, .inl hlt⟩
      · exact .inr ⟨hab, .inr ⟨heq, hlt⟩⟩

/-- A numeral decides before what follows it. -/
theorem padded_append_lt_iff {width m n : Nat} (hm : FitsIn width m)
    (hn : FitsIn width n) (xs ys : List Char) :
    (padded width m).toList ++ xs < (padded width n).toList ++ ys ↔ m < n ∨
      (m = n ∧ xs < ys) := by
  rw [append_lt_append_iff ((length_padded hm).trans (length_padded hn).symm),
    padded_lt_padded_iff hm hn]
  refine or_congr_right (and_congr_left fun _ => ⟨padded_inj, ?_⟩)
  rintro rfl
  rfl

theorem cons_lt_cons_same_iff (c : Char) (xs ys : List Char) :
    c :: xs < c :: ys ↔ xs < ys := by
  rw [List.cons_lt_cons_iff]
  have hirrefl : ¬c < c := Nat.lt_irrefl c.toNat
  simp [hirrefl]

/-- Names are ordered by timestamp, and by running number where the timestamps are
equal. -/
theorem fileName_lt_iff (t u : Timestamp) (m n : UInt64) (ext : String) :
    fileName t m ext < fileName u n ext ↔ t < u ∨ (t = u ∧ m < n) := by
  rw [String.lt_iff, toList_fileName, toList_fileName]
  simp only [stem, List.append_assoc, List.cons_append]
  rw [padded_append_lt_iff (fitsIn_uint64 _) (fitsIn_uint64 _), cons_lt_cons_same_iff,
    padded_append_lt_iff (fitsIn_uint32 _) (fitsIn_uint32 _), cons_lt_cons_same_iff,
    padded_append_lt_iff (fitsIn_uint64 _) (fitsIn_uint64 _)]
  have hirrefl : ¬('.' :: ext.toList) < ('.' :: ext.toList) := List.lt_irrefl _
  rw [Timestamp.lt_iff_toNat, Timestamp.eq_iff_toNat, UInt64.lt_iff_toNat_lt]
  simp only [hirrefl, and_false, or_false]
  omega

/-! ## What a name says -/

theorem takeWhile_append_cons {p : Char → Bool} {xs : List Char} {c : Char}
    (hxs : ∀ x ∈ xs, p x = true) (hc : p c = false) (ys : List Char) :
    (xs ++ c :: ys).takeWhile p = xs := by
  rw [List.takeWhile_append_of_pos hxs, List.takeWhile_cons, hc]
  simp

/-- The running number is in the name, whatever its extension. -/
theorem sequenceOf?_fileName (t : Timestamp) (n : UInt64) (ext : String) :
    sequenceOf? (fileName t n ext) = some n.toNat := by
  have hpoint : ∀ c ∈ stem t n, (c != '.') = true := by
    intro c hc
    rw [bne_iff_ne]
    exact ne_of_mem_stem hc rfl (by decide)
  have hdash : ∀ c ∈ (padded 20 n.toNat).toList.reverse, (c != '-') = true := by
    intro c hc
    rw [bne_iff_ne]
    rintro rfl
    exact absurd (isDigit_of_mem_padded _ (List.mem_reverse.1 hc)) (by decide)
  rw [sequenceOf?, toList_fileName]
  simp only [takeWhile_append_cons hpoint (show ('.' != '.') = false from rfl)]
  -- Read backwards, the name begins with the running number and a dash.
  have hlast : (stem t n).reverse.takeWhile (· != '-') =
      (padded 20 n.toNat).toList.reverse := by
    simp only [stem, List.reverse_append, List.reverse_cons, List.append_assoc,
      List.singleton_append]
    exact takeWhile_append_cons hdash rfl _
  rw [hlast, List.reverse_reverse]
  exact read?_padded n.toNat_lt

theorem fileName_sequence_inj {t u : Timestamp} {m n : UInt64} {e₁ e₂ : String}
    (h : fileName t m e₁ = fileName u n e₂) : m = n := by
  have hsome := sequenceOf?_fileName t m e₁
  rw [h, sequenceOf?_fileName] at hsome
  exact UInt64.toNat_inj.1 (Option.some.inj hsome).symm

/-- An extension: a few ASCII characters without a point. -/
structure Ending (ext : String) : Prop where
  point : ∀ c ∈ ext.toList, c ≠ '.'
  ascii : ∀ c ∈ ext.toList, c.toNat < 128
  zero : ∀ c ∈ ext.toList, c ≠ '\x00'
  short : ext.toList.length ≤ 4

theorem ending_extension (format : Format) : Ending format.extension := by
  cases format <;> constructor <;> simp [Format.extension]

theorem ending_tmp : Ending "tmp" := by
  constructor <;> simp

theorem extension_ne_tmp (format : Format) : format.extension ≠ "tmp" := by
  cases format <;> decide

theorem extension?_fileName (t : Timestamp) (n : UInt64) {ext : String}
    (hext : Ending ext) :
    Path.extension? (fileName t n ext) = some ext := by
  have hpoint : ∀ c ∈ ext.toList.reverse, (c != '.') = true := by
    intro c hc
    rw [bne_iff_ne]
    exact hext.point c (List.mem_reverse.1 hc)
  have hafter : (fileName t n ext).toList.reverse.takeWhile (· != '.') =
      ext.toList.reverse := by
    rw [toList_fileName, List.reverse_append, List.reverse_cons, List.append_assoc,
      List.singleton_append]
    exact takeWhile_append_cons hpoint rfl _
  have hlength : (fileName t n ext).length = 53 + ext.toList.length := by
    rw [← String.length_toList, length_fileName]
  rw [Path.extension?]
  simp only [hafter, List.length_reverse, hlength]
  rw [if_pos (by omega), List.reverse_reverse, String.ofList_toList]

/-- The name with another extension is that of the same record. -/
theorem withExtension_fileName (t : Timestamp) (n : UInt64) {ext : String}
    (hext : Ending ext) (other : String) :
    Path.withExtension (fileName t n ext) other = fileName t n other := by
  rw [Path.withExtension, extension?_fileName t n hext]
  apply String.toList_injective
  have hlength : (fileName t n ext).length - ext.length =
      (stem t n ++ ['.']).length := by
    rw [← String.length_toList, toList_fileName, ← String.length_toList]
    simp only [List.length_append, List.length_cons, List.length_nil]
    omega
  rw [String.toList_append, String.toList_ofList, hlength, toList_fileName,
    toList_fileName, List.append_cons (stem t n) '.' ext.toList, List.take_left,
    List.append_assoc, List.singleton_append]

/-! ## Names as parts of paths -/

theorem utf8ByteSize_of_ascii {s : String} (h : ∀ c ∈ s.toList, c.toNat < 128) :
    s.utf8ByteSize = s.toList.length := by
  have hbytes := Bytes.ofText_ofList_ascii h
  rw [String.ofList_toList] at hbytes
  rw [← Bytes.length_ofText, hbytes, List.length_map]

/-- A text of more than two ASCII characters is no name for the directory itself or
the one above. -/
theorem own_of_ascii {s : String} (hascii : ∀ c ∈ s.toList, c.toNat < 128)
    (hlong : 2 < s.toList.length)
    (hshort : s.toList.length ≤ Path.nameLimit) : Path.Own s := by
  have hne : ∀ t : String, t.toList.length ≤ 2 → s ≠ t := by
    rintro t ht rfl
    omega
  refine ⟨?_, hne ".." (by decide), by rwa [utf8ByteSize_of_ascii hascii]⟩
  rw [Path.isHere, Bool.or_eq_false_iff, beq_eq_false_iff_ne, beq_eq_false_iff_ne]
  exact ⟨hne "" (by decide), hne "." (by decide)⟩

theorem ascii_fileName (t : Timestamp) (n : UInt64) {ext : String} (hext : Ending ext) :
    ∀ c ∈ (fileName t n ext).toList, c.toNat < 128 := by
  intro c hc
  rw [toList_fileName, List.mem_append, List.mem_cons] at hc
  rcases hc with hc | rfl | hc
  · exact toNat_of_mem_stem hc
  · decide
  · exact hext.ascii c hc

theorem own_fileName (t : Timestamp) (n : UInt64) {ext : String} (hext : Ending ext) :
    Path.Own (fileName t n ext) := by
  have hshort := hext.short
  have hlength := length_fileName t n ext
  exact own_of_ascii (ascii_fileName t n hext) (by omega)
    (by rw [Path.nameLimit]; omega)

theorem zero_not_mem_fileName (t : Timestamp) (n : UInt64) {ext : String}
    (hext : Ending ext) :
    '\x00' ∉ (fileName t n ext).toList := by
  rw [toList_fileName, List.mem_append, List.mem_cons]
  rintro (h | h | h)
  · exact ne_of_mem_stem h rfl (by decide) rfl
  · exact absurd h (by decide)
  · exact hext.zero _ h rfl

/-! ## The directories of keys -/

/-- The name of a key's directory. -/
def keyName (key : String) : String := (Hash.Domain.key.hash (Bytes.ofText key)).toHex

theorem keyDirectory_eq (root : Path) (key : String) :
    keyDirectory root key = root ++ [keyName key] :=
  rfl

theorem mem_toHex {x : Digest} {c : Char} (h : c ∈ x.toHex.toList) :
    c.toNat < 128 ∧ c ≠ '\x00' := by
  have key : ∀ n : Fin 16, (Char.ofNat (Text.Hex.digit n.val).toNat).toNat < 128 ∧
      Char.ofNat (Text.Hex.digit n.val).toNat ≠ '\x00' := by decide
  rw [Digest.toHex, Text.Hex.toText, String.toList_ofList, List.mem_map] at h
  obtain ⟨b, hb, rfl⟩ := h
  obtain ⟨y, _, hy⟩ := List.mem_flatMap.1 hb
  have hlt : y.toNat < 256 := y.toNat_lt
  rcases List.mem_cons.1 hy with rfl | hy
  · exact key ⟨y.toNat / 16, by omega⟩
  · rw [List.mem_singleton.1 hy]
    exact key ⟨y.toNat % 16, by omega⟩

theorem length_keyName (key : String) : (keyName key).toList.length = 64 := by
  rw [keyName, Digest.toHex, Text.Hex.toText, String.toList_ofList, List.length_map,
    Text.Hex.length_encode, Digest.size_eq]

theorem utf8ByteSize_keyName (key : String) : (keyName key).utf8ByteSize = 64 :=
  (utf8ByteSize_of_ascii fun _ hc => (mem_toHex hc).1).trans (length_keyName key)

theorem own_keyName (key : String) : Path.Own (keyName key) :=
  own_of_ascii (fun _ hc => (mem_toHex hc).1) (by rw [length_keyName]; decide)
    (by rw [length_keyName]; decide)

/-- There is room for the names of directories and files in a path below the root. -/
def Roomy (root : Path) : Prop := root.toText.utf8ByteSize + 123 ≤ Path.textLimit

theorem proper_keyDirectory {root : Path} (hroom : Roomy root)
    (hproper : root.isProper = true) (key : String) :
    (root ++ [keyName key]).isProper = true := by
  have hsize := utf8ByteSize_keyName key
  refine Disk.isProper_concat hproper ?_ fun h => (mem_toHex h).2 rfl
  rw [Roomy] at hroom
  omega

theorem proper_file {root : Path} (hroom : Roomy root) (hproper : root.isProper = true)
    (key : String) (t : Timestamp) (n : UInt64) {ext : String} (hext : Ending ext) :
    (root ++ [keyName key] ++ [fileName t n ext]).isProper = true := by
  have hkey := utf8ByteSize_keyName key
  have hfile : (fileName t n ext).utf8ByteSize = 53 + ext.toList.length := by
    rw [utf8ByteSize_of_ascii (ascii_fileName t n hext), length_fileName]
  have hdir := Disk.utf8ByteSize_toText_concat root (keyName key)
  have hshort := hext.short
  refine Disk.isProper_concat (proper_keyDirectory hroom hproper key) ?_
    (zero_not_mem_fileName t n hext)
  rw [Roomy] at hroom
  omega

end Chronicle.Medium.Files
