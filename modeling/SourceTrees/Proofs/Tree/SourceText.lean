import SourceTrees.Proofs.Service.OwnTrees

/-!
# Reading source text back

Code that is handed in as text is kept as its UTF-8 bytes.  Where a node begins and ends between characters,
its text is that part of the code; so the root has the whole of it.

## Protocol

* The **offset** of a character position is the number of bytes that the characters before it take.
* Nodes **tile** the code from one position to another if they follow each other end to end, each of them from
  a position to the same or a later one.

## Results

* `Text.Utf8.encodeChar_eq` — a character is written as the language's own texts keep it.
* `Text.Utf8.decodeChars_encodeChars` — what is written is read back.
* `slice_encodeChars` — the bytes between two offsets are those of the characters between the positions.
* `ReadsBack` — what is said of the texts of a tree; **`text_reads_back`** — it holds of every tree that is made
  from text, and of every tree that a parse of text returns.
-/

set_option autoImplicit false

namespace SourceTrees

/-! ## Writing and reading -/

namespace Text.Utf8

/-- A character is written as texts keep it. -/
theorem encodeChar_eq (c : Char) : encodeChar c = String.utf8EncodeChar c := by
  have hvalid : c.toNat < 55296 ∨ 57343 < c.toNat ∧ c.toNat < 1114112 := c.valid
  simp only [encodeChar, String.utf8EncodeChar, Char.toNat_val]
  generalize c.toNat = n at hvalid ⊢
  by_cases h₁ : n < 0x80
  · have h₁' : n ≤ 127 := by omega
    rw [if_pos h₁, if_pos h₁']
  · have h₁' : ¬ n ≤ 127 := by omega
    rw [if_neg h₁, if_neg h₁']
    by_cases h₂ : n < 0x800
    · have h₂' : n ≤ 2047 := by omega
      have h : n / 64 % 32 = n / 64 := by omega
      rw [if_pos h₂, if_pos h₂', h, Nat.add_comm 0xC0, Nat.add_comm 0x80]
    · have h₂' : ¬ n ≤ 2047 := by omega
      rw [if_neg h₂, if_neg h₂']
      by_cases h₃ : n < 0x10000
      · have h₃' : n ≤ 65535 := by omega
        have h : n / 4096 % 16 = n / 4096 := by omega
        rw [if_pos h₃, if_pos h₃', h, Nat.add_comm 0xE0, Nat.add_comm 0x80, Nat.add_comm 0x80]
      · have h₃' : ¬ n ≤ 65535 := by omega
        have h : n / 262144 % 8 = n / 262144 := by omega
        rw [if_neg h₃, if_neg h₃', h, Nat.add_comm 0xF0, Nat.add_comm 0x80, Nat.add_comm 0x80,
          Nat.add_comm 0x80]

theorem encodeChars_append (cs ds : List Char) : encodeChars (cs ++ ds) = encodeChars cs ++ encodeChars ds :=
  List.flatMap_append

/-- Characters take as many bytes as the text that they make. -/
theorem length_encodeChars (cs : List Char) : (encodeChars cs).length = (String.ofList cs).utf8ByteSize := by
  induction cs with
  | nil => rfl
  | cons c cs ih =>
    rw [String.ofList_cons, String.utf8ByteSize_append, String.utf8ByteSize_singleton, ← ih, encodeChars,
      List.flatMap_cons, List.length_append, encodeChar_eq, String.length_utf8EncodeChar]
    rfl

variable {n value low high missing b : Nat} {rest : List UInt8}

theorem toNat_toUInt8 (h : b < 256) : b.toUInt8.toNat = b := by
  rw [Nat.toUInt8, UInt8.toNat_ofNat', Nat.mod_eq_of_lt h]

/-- The last byte of a character. -/
theorem decodeFrom_last (hlow : low ≤ 0x80 + b) (hhigh : 0x80 + b ≤ high) (hb : b < 64) :
    decodeFrom (.inside 0 low high value) ((0x80 + b).toUInt8 :: rest) =
      Char.ofNat (value * 64 + b) :: decodeFrom .between rest := by
  rw [decodeFrom, toNat_toUInt8 (by omega), next, if_pos ⟨hlow, hhigh⟩, Nat.add_sub_cancel_left]
  rfl

/-- A byte inside a character that is not the last one. -/
theorem decodeFrom_inner (hlow : low ≤ 0x80 + b) (hhigh : 0x80 + b ≤ high) (hb : b < 64) :
    decodeFrom (.inside (missing + 1) low high value) ((0x80 + b).toUInt8 :: rest) =
      decodeFrom (.inside missing 0x80 0xBF (value * 64 + b)) rest := by
  rw [decodeFrom, toNat_toUInt8 (by omega), next, if_pos ⟨hlow, hhigh⟩, Nat.add_sub_cancel_left]
  rfl

theorem decodeFrom_two (h : 0x80 ≤ n) (h' : n < 0x800) :
    decodeFrom .between ((0xC0 + n / 64).toUInt8 :: rest) =
      decodeFrom (.inside 0 0x80 0xBF (n / 64)) rest := by
  have hfirst : first (0xC0 + n / 64) = ([], .inside 0 0x80 0xBF (n / 64)) := by
    rw [first, if_neg (by omega), if_pos (by omega), Nat.add_sub_cancel_left]
  rw [decodeFrom, toNat_toUInt8 (by omega), next, hfirst]
  rfl

/-- The first byte of three leaves a range that the second one lies in. -/
theorem decodeFrom_three (rest : List UInt8) (h : 0x800 ≤ n) (h' : n < 0x10000) (hvalid : n < 0xD800 ∨ 0xDFFF < n) :
    ∃ low high, low ≤ 0x80 + n / 64 % 64 ∧ 0x80 + n / 64 % 64 ≤ high ∧
      decodeFrom .between ((0xE0 + n / 4096).toUInt8 :: rest) =
        decodeFrom (.inside 1 low high (n / 4096)) rest := by
  obtain ⟨low, high, hlow, hhigh, hfirst⟩ : ∃ low high, low ≤ 0x80 + n / 64 % 64 ∧
      0x80 + n / 64 % 64 ≤ high ∧ first (0xE0 + n / 4096) = ([], .inside 1 low high (n / 4096)) := by
    unfold first
    rw [if_neg (by omega), if_neg (by omega)]
    by_cases h₀ : n / 4096 = 0
    · exact ⟨0xA0, 0xBF, by omega, by omega, by rw [if_pos (by omega), h₀]⟩
    · rw [if_neg (by omega)]
      by_cases h₁ : n / 4096 = 0xD
      · exact ⟨0x80, 0x9F, by omega, by omega, by rw [if_pos (by omega), h₁]⟩
      · rw [if_neg (by omega), if_pos (by omega), Nat.add_sub_cancel_left]
        exact ⟨0x80, 0xBF, by omega, by omega, rfl⟩
  refine ⟨low, high, hlow, hhigh, ?_⟩
  rw [decodeFrom, toNat_toUInt8 (by omega), next, hfirst]
  rfl

/-- The first byte of four leaves a range that the second one lies in. -/
theorem decodeFrom_four (rest : List UInt8) (h : 0x10000 ≤ n) (h' : n < 0x110000) :
    ∃ low high, low ≤ 0x80 + n / 4096 % 64 ∧ 0x80 + n / 4096 % 64 ≤ high ∧
      decodeFrom .between ((0xF0 + n / 262144).toUInt8 :: rest) =
        decodeFrom (.inside 2 low high (n / 262144)) rest := by
  obtain ⟨low, high, hlow, hhigh, hfirst⟩ : ∃ low high, low ≤ 0x80 + n / 4096 % 64 ∧
      0x80 + n / 4096 % 64 ≤ high ∧ first (0xF0 + n / 262144) = ([], .inside 2 low high (n / 262144)) := by
    unfold first
    rw [if_neg (by omega), if_neg (by omega), if_neg (by omega), if_neg (by omega), if_neg (by omega)]
    by_cases h₀ : n / 262144 = 0
    · exact ⟨0x90, 0xBF, by omega, by omega, by rw [if_pos (by omega), h₀]⟩
    · rw [if_neg (by omega)]
      by_cases h₁ : n / 262144 = 4
      · exact ⟨0x80, 0x8F, by omega, by omega, by rw [if_pos (by omega), h₁]⟩
      · rw [if_neg (by omega), if_pos (by omega), Nat.add_sub_cancel_left]
        exact ⟨0x80, 0xBF, by omega, by omega, rfl⟩
  refine ⟨low, high, hlow, hhigh, ?_⟩
  rw [decodeFrom, toNat_toUInt8 (by omega), next, hfirst]
  rfl

/-- A character is read back from its bytes. -/
theorem decodeFrom_encodeChar (c : Char) (rest : List UInt8) :
    decodeFrom .between (encodeChar c ++ rest) = c :: decodeFrom .between rest := by
  have hvalid : c.toNat < 55296 ∨ 57343 < c.toNat ∧ c.toNat < 1114112 := c.valid
  have hc : Char.ofNat c.toNat = c := Char.ofNat_toNat c
  unfold encodeChar
  generalize c.toNat = n at hvalid hc ⊢
  by_cases h₁ : n < 0x80
  · rw [if_pos h₁, List.singleton_append, decodeFrom, toNat_toUInt8 (by omega), next, first, if_pos h₁, hc]
    rfl
  · rw [if_neg h₁]
    by_cases h₂ : n < 0x800
    · have hn : n / 64 * 64 + n % 64 = n := by omega
      rw [if_pos h₂, List.cons_append, List.singleton_append, decodeFrom_two (by omega) h₂,
        decodeFrom_last (by omega) (by omega) (by omega), hn, hc]
    · rw [if_neg h₂]
      by_cases h₃ : n < 0x10000
      · obtain ⟨low, high, hlow, hhigh, hthree⟩ := decodeFrom_three
          ((0x80 + n / 64 % 64).toUInt8 :: (0x80 + n % 64).toUInt8 :: rest) (by omega) h₃ (by omega)
        have hn : (n / 4096 * 64 + n / 64 % 64) * 64 + n % 64 = n := by omega
        rw [if_pos h₃, List.cons_append, List.cons_append, List.singleton_append, hthree,
          decodeFrom_inner hlow hhigh (by omega), decodeFrom_last (by omega) (by omega) (by omega), hn, hc]
      · obtain ⟨low, high, hlow, hhigh, hfour⟩ := decodeFrom_four
          ((0x80 + n / 4096 % 64).toUInt8 :: (0x80 + n / 64 % 64).toUInt8 ::
            (0x80 + n % 64).toUInt8 :: rest) (by omega : 0x10000 ≤ n) (by omega)
        have hn : ((n / 262144 * 64 + n / 4096 % 64) * 64 + n / 64 % 64) * 64 + n % 64 = n := by omega
        rw [if_neg h₃, List.cons_append, List.cons_append, List.cons_append, List.singleton_append, hfour,
          decodeFrom_inner hlow hhigh (by omega), decodeFrom_inner (by omega) (by omega) (by omega),
          decodeFrom_last (by omega) (by omega) (by omega), hn, hc]

/-- What is written is read back. -/
theorem decodeChars_encodeChars (cs : List Char) : decodeChars (encodeChars cs) = cs := by
  induction cs with
  | nil => rfl
  | cons c cs ih =>
    rw [encodeChars, List.flatMap_cons, decodeChars, decodeFrom_encodeChar]
    exact congrArg (c :: ·) ih

end Text.Utf8

/-! ## Parts of code -/

open Text

/-- The number of bytes that the characters before a position take. -/
def offsetOf (code : String) (i : Nat) : Nat := (String.ofList (code.toList.take i)).utf8ByteSize

/-- The characters from one position to another. -/
def partOf (code : String) (i j : Nat) : String := String.ofList ((code.toList.drop i).take (j - i))

variable {code : String} {i j k : Nat}

theorem clampIndex_natCast (length k : Nat) : clampIndex length k = min k length := by
  have hk : ¬ (k : Int) < 0 := by omega
  rw [clampIndex, if_neg hk, Int.toNat_natCast]

/-- The bytes from the end of a first part to the end of a second one are the second one's. -/
theorem slice_append (a b c : List UInt8) :
    slice (a ++ b ++ c) (a.length : Nat) ((a ++ b).length : Nat) = b := by
  have ha : min a.length (a ++ b ++ c).length = a.length := by
    simp only [List.length_append]
    omega
  have hb : min (a ++ b).length (a ++ b ++ c).length = a.length + b.length := by
    simp only [List.length_append]
    omega
  rw [slice, clampIndex_natCast, clampIndex_natCast, ha, hb, Nat.add_sub_cancel_left, List.append_assoc,
    List.drop_left, List.take_left]

theorem take_eq_append (hij : i ≤ j) (cs : List Char) :
    cs.take j = cs.take i ++ (cs.drop i).take (j - i) := by
  rw [← List.take_add, Nat.add_sub_cancel' hij]

/-- The bytes between two offsets are those of the characters between the positions. -/
theorem slice_encode (hij : i ≤ j) :
    slice (Utf8.encode code) (offsetOf code i) (offsetOf code j) =
      Utf8.encodeChars ((code.toList.drop i).take (j - i)) := by
  have hsplit : code.toList = code.toList.take i ++ (code.toList.drop i).take (j - i) ++ code.toList.drop j := by
    rw [← take_eq_append hij, List.take_append_drop]
  have hcode : Utf8.encode code = Utf8.encodeChars (code.toList.take i) ++
      Utf8.encodeChars ((code.toList.drop i).take (j - i)) ++ Utf8.encodeChars (code.toList.drop j) := by
    rw [Utf8.encode, ← Utf8.encodeChars_append, ← Utf8.encodeChars_append, ← hsplit]
  have hj : offsetOf code j = (Utf8.encodeChars (code.toList.take i) ++
      Utf8.encodeChars ((code.toList.drop i).take (j - i))).length := by
    rw [offsetOf, ← Utf8.length_encodeChars, take_eq_append hij, Utf8.encodeChars_append]
  rw [hcode, hj, offsetOf, ← Utf8.length_encodeChars, slice_append]

/-- What follows a part is a part. -/
theorem partOf_append (hij : i ≤ j) (hjk : j ≤ k) : partOf code i j ++ partOf code j k = partOf code i k := by
  have hdrop : (code.toList.drop i).drop (j - i) = code.toList.drop j := by
    rw [List.drop_drop, Nat.add_sub_cancel' hij]
  have htake : j - i + (k - j) = k - i := by omega
  rw [partOf, partOf, partOf, ← String.ofList_append, ← hdrop, ← List.take_add, htake]

theorem partOf_self (code : String) (i : Nat) : partOf code i i = "" := by
  rw [partOf, Nat.sub_self, List.take_zero, String.ofList_nil]

/-! ## The law -/

/-- The node is the part of the code between two positions. -/
structure Node.Spans (code : String) (i j : Nat) (n : Node) : Prop where
  order : i ≤ j
  bound : j ≤ code.length
  first : n.label.startByte = offsetOf code i
  last : n.label.endByte = offsetOf code j

/-- The nodes follow each other end to end from one position to another. -/
inductive Tile (code : String) : Nat → Nat → List Node → Prop
  | nil (i : Nat) : Tile code i i []
  | cons {i j k : Nat} {n : Node} {ns : List Node} (h : n.Spans code i j) (hs : Tile code j k ns) :
      Tile code i k (n :: ns)

theorem Tile.order {ns : List Node} (h : Tile code i k ns) : i ≤ k := by
  induction h with
  | nil i => exact Nat.le_refl i
  | cons h _ ih => exact Nat.le_trans h.order ih

/-- What is said of the texts of a tree that is made from code. -/
structure ReadsBack (code : String) (t : Tree) : Prop where
  /-- The root has the whole of the code. -/
  whole : t.text t.root = code
  /-- A node that begins and ends between characters has the part of the code between them. -/
  part : ∀ {n i j}, Node.Spans code i j n → t.text n = partOf code i j
  /-- A node whose children tile it has their texts one after the other. -/
  joined : ∀ {n i j}, Node.Spans code i j n → Tile code i j n.children →
    t.text n = String.join (n.children.map t.text)
  /-- Whatever its range, every node has a text. -/
  total : ∀ n, t.textIn n "utf-8" = .ok (t.text n)

namespace ReadsBack

variable {t : Tree}

theorem part_of_source (hs : t.source = Utf8.encode code) {n : Node} (h : n.Spans code i j) :
    t.text n = partOf code i j := by
  rw [Tree.text, Tree.bytesOf, hs, h.first, h.last, slice_encode h.order, Utf8.decode,
    Utf8.decodeChars_encodeChars, partOf]

/-- Nodes that tile the code have the part between them. -/
theorem join_of_tile (hs : t.source = Utf8.encode code) {ns : List Node} (h : Tile code i k ns) :
    String.join (ns.map t.text) = partOf code i k := by
  induction h with
  | nil i => exact (partOf_self code i).symm
  | cons h hrest ih =>
    rw [List.map_cons, String.join_cons, ih, part_of_source hs h, partOf_append h.order hrest.order]

theorem textIn_utf8 (t : Tree) (n : Node) : t.textIn n "utf-8" = .ok (t.text n) := by
  have hname : Charset.named? "utf-8" = some .utf8 := by decide +kernel
  have hzero : "utf-8".contains (Char.ofNat 0) = false := by simp
  rw [Tree.textIn, hzero, hname, Tree.text]
  cases t.bytesOf n <;> rfl

/-- A tree over the bytes of code, its root covering all of them, reads back. -/
theorem of_source (hs : t.source = Utf8.encode code) (hfirst : t.root.label.startByte = 0)
    (hlast : t.root.label.endByte = t.source.length) : ReadsBack code t := by
  have hroot : t.root.Spans code 0 code.length := by
    refine ⟨Nat.zero_le _, Nat.le_refl _, hfirst, ?_⟩
    rw [hlast, hs, offsetOf, ← Utf8.length_encodeChars, ← String.length_toList, List.take_length]
    rfl
  refine ⟨?_, part_of_source hs, fun hn htile => ?_, textIn_utf8 t⟩
  · rw [part_of_source hs hroot, partOf, Nat.sub_zero, List.drop_zero, ← String.length_toList, List.take_length,
      String.ofList_toList]
  · rw [part_of_source hs hn, join_of_tile hs htile]

theorem ofEngine (code language : String) (root : Node) :
    ReadsBack code (.ofEngine language (Utf8.encode code) root) :=
  of_source rfl rfl rfl

end ReadsBack

/-- **Source text reads back** from every tree that is made from it, whatever tree the engine has given; so it
    does from the tree that a parse of text returns, however the parse went. -/
theorem text_reads_back :
    (∀ (code language : String) (root : Node), ∃ source, (Code.text code).toSource = .ok source ∧
      ReadsBack code (.ofEngine language source root)) ∧
    ∀ (config : Config) (world : World) (eager : Bool) (stuck : Option Fault) (log : List LogLine)
      (ms : List Service.Move) (code : String) (language : Json) (c : PromiseId) (v : Reply),
      ((Service.opened config world eager stuck log).moves ms).workers.dismissed = false →
      Service.Began (Service.opened config world eager stuck log) ms (.parse (.text code) language) c →
      ((Service.opened config world eager stuck log).moves ms).loop.outcome? c = some (.value v) →
      ∃ t, v = .tree t ∧ ReadsBack code t := by
  refine ⟨fun code language root => ⟨_, rfl, .ofEngine code language root⟩, ?_⟩
  intro config world eager stuck log ms code language c v hopen hc hout
  obtain ⟨roles, ho, -, hcourse⟩ := Service.exists_served config world eager stuck log ms hopen
  obtain ⟨name, source, job, parser, root, t, rfl, hsource, -, -, -, rfl, hcopy⟩ :=
    (hcourse hc).returned ho hout
  cases hsource
  rw [hcopy.made]
  exact ⟨_, rfl, .ofEngine code name root⟩

/-- A parse of a short text whose first letter takes two bytes, its workers doing every job at once. -/
def accented : List Service.Move :=
  .act (.spawn (.parse (.text "é = 1") (.str "python"))) :: List.replicate 30 (.serve 0)

theorem text_reads_back_accented :
    ((Service.opened {} Service.twoLanguages true none []).moves accented).workers.dismissed = false ∧
      ∃ t, ((Service.opened {} Service.twoLanguages true none []).moves accented).loop.outcome? 0 =
          some (.value (.tree t)) ∧
        ReadsBack "é = 1" t := by
  have hopen : ((Service.opened {} Service.twoLanguages true none []).moves accented).workers.dismissed = false := by
    decide +kernel
  have hbegan : Service.Began (Service.opened {} Service.twoLanguages true none []) accented
      (.parse (.text "é = 1") (.str "python")) 0 := ⟨[], _, rfl, by decide +kernel⟩
  have hreturns : (((Service.opened {} Service.twoLanguages true none []).moves accented).loop.outcome? 0).map
      Settled.isTree = some true := by
    decide +kernel
  obtain ⟨o, hout, htree⟩ := Option.map_eq_some_iff.1 hreturns
  obtain ⟨t, rfl⟩ := Settled.exists_tree htree
  obtain ⟨_, he, hreads⟩ := text_reads_back.2 _ _ _ _ _ _ _ _ _ _ hopen hbegan hout
  cases he
  exact ⟨hopen, t, hout, hreads⟩

end SourceTrees
