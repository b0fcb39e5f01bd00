import Mathlib.Data.List.Induction
import Mathlib.Data.List.TakeWhile
import SourceTrees.Language.Detection
import SourceTrees.Proofs.Text.Lowering

/-!
# Which paths have a language

The language of a path is told by the ending of its file name.  The path is cut at separators of either slant
and the file name at its last dot; what comes of that is said here without any cutting, once of the path taken
apart and once of the path as a whole.

## Protocol

* A **directory** is a text that is empty or ends in a separator.
* A path is taken apart into a directory, a stem without separators, a dot, and an ending without separators
  and dots.  Directory, stem and ending may be empty.

## Results

* `Language.Parts` — a path taken apart.
* `Language.detect_eq_some_iff` — the language is the one that stands for the ending in small letters.
* `Language.detect_eq_some_iff_suffix` — it is told by what the path ends in, in either letter case.
* `Language.detect_append` — the directory is not looked at.
* **`Language.tells_by_ending`** — the law for every path.
-/

set_option autoImplicit false

namespace SourceTrees.Language

variable {p : Char → Bool} {cs ds : List Char} {path other directory stem ending name language : String}

/-! ## The last piece -/

/-- What stands before the last piece of a text: nothing, or something that ends where a piece ends. -/
def EndsPiece (p : Char → Bool) (ds : List Char) : Prop := ∀ c ∈ ds.getLast?, p c = true

theorem endsPiece_concat {c : Char} (h : p c = true) (ds : List Char) : EndsPiece p (ds ++ [c]) := by
  simp [EndsPiece, h]

/-- The last piece begins where another one has ended. -/
theorem afterLast_append (hd : EndsPiece p ds) (cs : List Char) :
    afterLast p (ds ++ cs) = afterLast p cs := by
  induction cs using List.reverseRecOn with
  | nil =>
    rcases List.eq_nil_or_concat ds with rfl | ⟨front, c, rfl⟩
    · rfl
    · have hc : p c = true := hd c (by simp)
      simp [afterLast, hc]
  | append_singleton cs c ih =>
    rw [← List.append_assoc]
    unfold afterLast at ih ⊢
    cases hc : p c with
    | true => simp [hc]
    | false => simpa [hc] using ih

/-- A text without ends of pieces is one piece. -/
theorem afterLast_of_forall (h : ∀ c ∈ cs, p c = false) : afterLast p cs = cs := by
  have hall : ∀ c ∈ cs.reverse, (!p c) = true := fun c hc => by simp [h c (List.mem_reverse.1 hc)]
  rw [afterLast, List.takeWhile_eq_self_iff.2 hall, List.reverse_reverse]

/-- The last piece is what stands after the last end of a piece. -/
theorem exists_afterLast (p : Char → Bool) (cs : List Char) :
    (∃ ds, cs = ds ++ afterLast p cs ∧ EndsPiece p ds) ∧ ∀ c ∈ afterLast p cs, p c = false := by
  induction cs using List.reverseRecOn with
  | nil => exact ⟨⟨[], rfl, by simp [EndsPiece]⟩, by simp [afterLast]⟩
  | append_singleton cs c ih =>
    cases hc : p c with
    | true =>
      have he : afterLast p (cs ++ [c]) = [] := by simp [afterLast, hc]
      rw [he]
      exact ⟨⟨cs ++ [c], by simp, endsPiece_concat hc cs⟩, by simp⟩
    | false =>
      have he : afterLast p (cs ++ [c]) = afterLast p cs ++ [c] := by simp [afterLast, hc]
      obtain ⟨⟨ds, hds, hends⟩, hall⟩ := ih
      rw [he]
      refine ⟨⟨ds, ?_, hends⟩, fun x hx => ?_⟩
      · rw [← List.append_assoc, ← hds]
      · rcases List.mem_append.1 hx with hx | hx
        · exact hall x hx
        · rw [List.mem_singleton.1 hx, hc]

/-! ## Paths taken apart -/

theorem isSeparator_iff {c : Char} : isSeparator c = true ↔ c = '/' ∨ c = '\\' := by
  simp [isSeparator]

/-- A text that can stand before the name of a file. -/
def IsDirectory (directory : String) : Prop :=
  directory = "" ∨ ∃ front, directory = front ++ "/" ∨ directory = front ++ "\\"

theorem isDirectory_iff : IsDirectory directory ↔ EndsPiece isSeparator directory.toList := by
  constructor
  · rintro (rfl | ⟨front, rfl | rfl⟩)
    · simp [EndsPiece]
    · rw [String.toList_append]
      exact endsPiece_concat (by decide) front.toList
    · rw [String.toList_append]
      exact endsPiece_concat (by decide) front.toList
  · intro h
    rcases List.eq_nil_or_concat directory.toList with hnil | ⟨front, c, hcons⟩
    · exact .inl (String.toList_inj.1 hnil)
    · rw [List.concat_eq_append] at hcons
      have hc : isSeparator c = true := h c (by simp [hcons])
      refine .inr ⟨String.ofList front, ?_⟩
      rcases isSeparator_iff.1 hc with rfl | rfl
      · exact .inl (String.toList_inj.1 (by simp [hcons]))
      · exact .inr (String.toList_inj.1 (by simp [hcons]))

/-- A path taken apart. -/
structure Parts (path directory stem ending : String) : Prop where
  whole : path = directory ++ stem ++ "." ++ ending
  directory : IsDirectory directory
  stem : ∀ c ∈ stem.toList, isSeparator c = false
  ending : ∀ c ∈ ending.toList, isSeparator c = false ∧ c ≠ '.'

/-- The ending of the file name is found by cutting. -/
theorem Parts.extension?_eq (h : Parts path directory stem ending) :
    extension? path.toList = some (Text.lowerChars ending.toList) := by
  have hname : fileName path.toList = stem.toList ++ ['.'] ++ ending.toList := by
    have hwhole : path.toList = directory.toList ++ (stem.toList ++ ['.'] ++ ending.toList) := by
      simp [h.whole]
    rw [hwhole, fileName, afterLast_append (isDirectory_iff.1 h.directory), afterLast_of_forall]
    intro c hc
    simp only [List.mem_append, List.mem_singleton] at hc
    rcases hc with (hc | rfl) | hc
    · exact h.stem c hc
    · rfl
    · exact (h.ending c hc).1
  have hlast : afterLast (· == '.') (stem.toList ++ ['.'] ++ ending.toList) = ending.toList := by
    rw [afterLast_append (endsPiece_concat rfl _), afterLast_of_forall]
    intro c hc
    simpa using (h.ending c hc).2
  simp only [extension?, hname, hlast]
  simp

/-- A path whose file name has a dot can be taken apart. -/
theorem exists_parts {e : List Char} (h : extension? path.toList = some e) :
    ∃ directory stem ending, Parts path directory stem ending ∧ Text.lowerChars ending.toList = e := by
  obtain ⟨⟨ds, hpath, hds⟩, hname⟩ := exists_afterLast isSeparator path.toList
  obtain ⟨⟨ss, hss, hstem⟩, hending⟩ := exists_afterLast (· == '.') (fileName path.toList)
  simp only [extension?] at h
  rw [fileName] at h hss hending
  generalize afterLast isSeparator path.toList = file at *
  split at h
  · rename_i hdot
    -- The dot stands in front of the ending, since there is none in it.
    obtain ⟨front, rfl⟩ : ∃ front, ss = front ++ ['.'] := by
      rcases List.eq_nil_or_concat ss with rfl | ⟨front, c, rfl⟩
      · rw [List.nil_append] at hss
        rw [hss, List.contains_iff_mem] at hdot
        simpa using hending _ hdot
      · have hc := hstem c (by simp)
        exact ⟨front, by simp [show c = '.' by simpa using hc]⟩
    generalize afterLast (· == '.') file = rest at *
    cases h
    refine ⟨String.ofList ds, String.ofList front, String.ofList rest, ⟨?_, ?_, ?_, ?_⟩, by simp⟩
    · exact String.toList_inj.1 (by simp [hpath, hss])
    · exact isDirectory_iff.2 (by simpa using hds)
    · intro c hc
      exact hname c (by simp [hss, String.toList_ofList ▸ hc])
    · intro c hc
      rw [String.toList_ofList] at hc
      exact ⟨hname c (by simp [hss, hc]), by simpa using hending c hc⟩
  · cases h

/-- **The language of a path is the one that stands for its ending in small letters.** -/
theorem detect_eq_some_iff : detect path = some language ↔ ∃ directory stem ending,
    Parts path directory stem ending ∧ byExtension.get? (Text.lower ending) = some language := by
  unfold detect
  rw [Option.bind_eq_some_iff]
  constructor
  · rintro ⟨e, he, hlanguage⟩
    obtain ⟨directory, stem, ending, hparts, rfl⟩ := exists_parts he
    exact ⟨directory, stem, ending, hparts, hlanguage⟩
  · rintro ⟨directory, stem, ending, hparts, hlanguage⟩
    exact ⟨_, hparts.extension?_eq, hlanguage⟩

/-- The directory is not looked at. -/
theorem detect_append (hd : IsDirectory directory) (path : String) :
    detect (directory ++ path) = detect path := by
  unfold detect extension? fileName
  rw [String.toList_append, afterLast_append (isDirectory_iff.1 hd)]

/-! ## What a path ends in -/

/-- The endings that have a language are plain. -/
theorem isPlain_extension : ∀ e ∈ byExtension.entries, ∀ c ∈ e.1.toList,
    Text.isPlain c = true ∧ isSeparator c = false ∧ c ≠ '.' := by
  have hall : (byExtension.entries.all fun e => e.1.toList.all fun c =>
      Text.isPlain c && !isSeparator c && c != '.') = true := by decide
  simpa [List.all_eq_true, and_assoc] using hall

/-- Separators and dots have no other letter case. -/
theorem toLower_eq_iff {c x : Char} (hx : isSeparator x = true ∨ x = '.') : c.toLower = x ↔ c = x := by
  constructor
  · intro h
    by_cases hc : c.toNat < 0x80
    · have hall : ∀ n : Fin 0x80, isSeparator (Char.ofNat n).toLower = true ∨ (Char.ofNat n).toLower = '.' →
          (Char.ofNat n).toLower = Char.ofNat n := by decide +kernel
      have hsame := hall ⟨c.toNat, hc⟩
      simp only [Char.ofNat_toNat] at hsame
      rw [← h, hsame (h ▸ hx)]
    · rw [← h, Text.toLower_of_le (Nat.not_lt.1 hc)]
  · rintro rfl
    rcases hx with hx | rfl
    · rcases isSeparator_iff.1 hx with rfl | rfl <;> rfl
    · rfl

/-- **The language of a path is told by what the path ends in, in either letter case.** -/
theorem detect_eq_some_iff_suffix : detect path = some language ↔ ∃ e ∈ byExtension.entries,
    e.2 = language ∧ ("." ++ e.1).toList <:+ path.toList.map Char.toLower := by
  rw [detect_eq_some_iff]
  constructor
  · rintro ⟨directory, stem, ending, hparts, hlanguage⟩
    have hmem := Keyed.mem_of_lookIn hlanguage
    have hplain := fun c hc => (isPlain_extension _ hmem c hc).1
    have hlower : ending.toList.map Char.toLower = (Text.lower ending).toList :=
      (Text.lowerChars_eq_iff hplain).1 (by simp [Text.lower])
    refine ⟨_, hmem, rfl, (directory ++ stem).toList.map Char.toLower, ?_⟩
    simp [hparts.whole, hlower]
  · rintro ⟨e, hmem, rfl, front, hfront⟩
    have hplain := isPlain_extension e hmem
    rw [String.toList_append, eq_comm, List.map_eq_append_iff] at hfront
    obtain ⟨before, rest, hpath, -, hrest⟩ := hfront
    rw [show ".".toList ++ e.1.toList = '.' :: e.1.toList from rfl, List.map_eq_cons_iff] at hrest
    obtain ⟨dot, ending, rfl, hdot, hending⟩ := hrest
    obtain rfl := (toLower_eq_iff (.inr rfl)).1 hdot
    obtain ⟨⟨ds, hbefore, hds⟩, hstem⟩ := exists_afterLast isSeparator before
    generalize afterLast isSeparator before = stem at *
    refine ⟨String.ofList ds, String.ofList stem, String.ofList ending, ⟨?_, ?_, ?_, ?_⟩, ?_⟩
    · exact String.toList_inj.1 (by simp [hpath, hbefore])
    · exact isDirectory_iff.2 (by simpa using hds)
    · simpa using hstem
    · intro c hc
      rw [String.toList_ofList] at hc
      have hsmall := hplain c.toLower (hending ▸ List.mem_map_of_mem hc)
      refine ⟨Bool.eq_false_iff.2 fun hsep => ?_, ?_⟩
      · rw [(toLower_eq_iff (.inl hsep)).2 rfl] at hsmall
        simp [hsep] at hsmall
      · rintro rfl
        exact hsmall.2.2 rfl
    · have hlower : Text.lower (String.ofList ending) = e.1 := by
        rw [Text.lower, String.toList_ofList, (Text.lowerChars_eq_iff fun c hc => (hplain c hc).1).2 hending,
          String.ofList_toList]
      rw [hlower]
      exact Keyed.get?_of_mem hmem

/-- The answer does not depend on letter case. -/
theorem detect_congr (h : other.toLower = path.toLower) : detect other = detect path := by
  have hsame : other.toList.map Char.toLower = path.toList.map Char.toLower := by
    rw [← String.toList_map, ← String.toList_map]
    exact congrArg String.toList h
  refine Option.ext fun language => ?_
  rw [detect_eq_some_iff_suffix, detect_eq_some_iff_suffix, hsame]

/-- A file is supported if its path in small letters ends in a supported extension. -/
theorem isSupportedFile_iff : isSupportedFile path = true ↔
    ∃ extension ∈ extensions, extension.toList <:+ (Text.lower path).toList := by
  have hlower : ∀ e ∈ byExtension.entries, ("." ++ e.1).toList <:+ (Text.lower path).toList ↔
      ("." ++ e.1).toList <:+ path.toList.map Char.toLower := by
    intro e he
    rw [Text.lower, String.toList_ofList]
    refine Text.suffix_lowerChars_iff fun c hc => ?_
    rw [String.toList_append, List.mem_append] at hc
    rcases hc with hc | hc
    · rw [List.mem_singleton.1 hc]
      rfl
    · exact (isPlain_extension e he c hc).1
  rw [isSupportedFile, Option.isSome_iff_exists]
  constructor
  · rintro ⟨language, h⟩
    obtain ⟨e, he, -, hsuffix⟩ := detect_eq_some_iff_suffix.1 h
    exact ⟨_, List.mem_map_of_mem (List.mem_map_of_mem he), (hlower e he).2 hsuffix⟩
  · rintro ⟨extension, hmem, hsuffix⟩
    obtain ⟨ending, hending, rfl⟩ := List.mem_map.1 hmem
    obtain ⟨e, he, rfl⟩ := List.mem_map.1 hending
    exact ⟨e.2, detect_eq_some_iff_suffix.2 ⟨e, he, rfl, (hlower e he).1 hsuffix⟩⟩

/-! ## The law -/

/-- How the language of a path is told. -/
structure TellsByEnding (path : String) : Prop where
  /-- It is the one that stands for the ending in small letters. -/
  language : ∀ {language}, detect path = some language ↔ ∃ directory stem ending,
    Parts path directory stem ending ∧ byExtension.get? (Text.lower ending) = some language
  /-- There is none if the path cannot be taken apart so, or nothing stands for its ending. -/
  nothing : detect path = none ↔ ∀ {directory stem ending}, Parts path directory stem ending →
    byExtension.get? (Text.lower ending) = none
  /-- It depends on the file name only. -/
  name : ∀ {directory name}, IsDirectory directory → (∀ c ∈ name.toList, isSeparator c = false) →
    path = directory ++ name → ∀ {other}, IsDirectory other → detect (other ++ name) = detect path
  /-- No directory put before the path changes it. -/
  directory : ∀ {directory}, IsDirectory directory → detect (directory ++ path) = detect path
  /-- Neither does another case of letters in the basic alphabet. -/
  letterCase : ∀ {other : String}, other.toLower = path.toLower → detect other = detect path
  /-- There is one if the path in small letters ends in one of the supported extensions. -/
  supported : isSupportedFile path = true ↔
    ∃ extension ∈ extensions, extension.toList <:+ (Text.lower path).toList

/-- **The language of every path is told by its ending.** -/
theorem tells_by_ending (path : String) : TellsByEnding path where
  language := detect_eq_some_iff
  nothing := by
    constructor
    · intro hnone directory stem ending hparts
      refine Option.eq_none_iff_forall_ne_some.2 fun language hlanguage => ?_
      rw [detect_eq_some_iff.2 ⟨directory, stem, ending, hparts, hlanguage⟩] at hnone
      cases hnone
    · intro hnone
      refine Option.eq_none_iff_forall_ne_some.2 fun language hlanguage => ?_
      obtain ⟨directory, stem, ending, hparts, hsome⟩ := detect_eq_some_iff.1 hlanguage
      rw [hnone hparts] at hsome
      cases hsome
  name hd _ hpath _ hother := by rw [hpath, detect_append hother, detect_append hd]
  directory hd := detect_append hd path
  letterCase := detect_congr
  supported := isSupportedFile_iff

/-- The last dot of the last name counts, in any letter case. -/
example : detect "C:\\work\\pkg.js/Types.d.TSX" = some "typescript" := by decide


end SourceTrees.Language
