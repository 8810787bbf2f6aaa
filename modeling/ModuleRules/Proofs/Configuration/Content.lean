import ModuleRules.Configuration.Discovery
import ModuleRules.Proofs.Configuration.Reading
import ModuleRules.Proofs.Text.Utf8

/-!
# Files and texts

Lines of a file are cut from its bytes and read one by one, lines of a text
are cut from characters. For bytes that stand for a text this makes no
difference. Other bytes have a first line that stands for no text; before it
stand whole lines of a text, and the file is read as that text is and then
stops, if it has not stopped before (`addFile_eq_addText`).
-/

namespace ModuleRules

open Text.Utf8

/-! ## Lines of bytes -/

theorem FileTree.decode_encode (t : Text) : FileTree.decode (encode t) = .ok t := by
  unfold decode
  rw [decode?_encode]

theorem FileTree.decode_of_none {b : Bytes} (h : decode? b = none) :
    FileTree.decode b = .error .notUtf8 := by
  unfold decode
  rw [h]

namespace Loaded

theorem linesOfBytes_append_feed {p : Bytes} (hp : 10 ∉ p) (r : Bytes) :
    linesOfBytes (splitLines (p ++ 10 :: r)) =
      (FileTree.decode p).map Text.dropReturn :: linesOfBytes (splitLines r) := by
  rw [splitLines_append r hp]
  cases hr : splitLines r with
  | nil => exact absurd hr (splitLines_ne_nil r)
  | cons q qs => rfl

theorem linesOfBytes_unlines_append : ∀ {qs : List Text}, (∀ q ∈ qs, '\n' ∉ q) → ∀ r : Bytes,
    linesOfBytes (splitLines (encode (Text.unlines qs) ++ r)) =
      (qs.map Text.dropReturn).map .ok ++ linesOfBytes (splitLines r)
  | [], _, r => rfl
  | q :: qs, h, r => by
    obtain ⟨hq, hqs⟩ := List.forall_mem_cons.1 h
    have hbytes : 10 ∉ encode q := mt mem_encode.1 hq
    rw [Text.unlines, encode_append_feed, List.append_assoc, List.cons_append,
      linesOfBytes_append_feed hbytes, linesOfBytes_unlines_append hqs, FileTree.decode_encode]
    rfl

/-- Lines cut from the bytes of a text are the lines of the text. -/
theorem linesOfBytes_encode (t : Text) :
    linesOfBytes (splitLines (encode t)) = (Text.lines t).map .ok := by
  obtain ⟨qs, r, hqs, hr, rfl⟩ := Text.exists_unlines t
  have hbytes : 10 ∉ encode r := mt mem_encode.1 hr
  have hlast : linesOfBytes [encode r] = (Text.lines r).map .ok := by
    rw [Text.lines_of_not_mem hr, linesOfBytes, FileTree.decode_encode]
    by_cases hnil : r = []
    · rw [if_pos hnil, if_pos (encode_eq_nil_iff.2 hnil)]
      rfl
    · rw [if_neg hnil, if_neg (mt encode_eq_nil_iff.1 hnil)]
      rfl
  rw [encode_append, linesOfBytes_unlines_append hqs, splitLines_of_not_mem hbytes, hlast,
    ← List.map_append, Text.lines_unlines_append hqs]

theorem addFile_encode {t : FileTree} {path text : Text} (properties : Properties)
    (l : Loaded) (h : t.read path = .ok (encode text)) :
    l.addFile t properties path = l.addText properties path text := by
  simp only [addFile, h, addBytes, linesOfBytes_encode, addText]

theorem addFiles_cons {t : FileTree} {properties : Properties} {path text : Text}
    {l l' : Loaded} (hread : t.read path = .ok (encode text))
    (hadd : l.addText properties path text = (l', none)) (rest : List Text) :
    addFiles t properties (path :: rest) l = addFiles t properties rest l' := by
  simp only [addFiles, addFile_encode _ _ hread, hadd]

/-- A line that stands for no text is unreadable, whatever follows it. -/
theorem linesOfBytes_bad {bad r : Bytes} (hbad : 10 ∉ bad) (hr : ∀ b ∈ r.head?, b = 10)
    (hnone : decode? bad = none) :
    ∃ rest, linesOfBytes (splitLines (bad ++ r)) = .error .notUtf8 :: rest := by
  cases r with
  | nil =>
    have hne : bad ≠ [] := by
      rintro rfl
      cases hnone
    rw [List.append_nil, splitLines_of_not_mem hbad, linesOfBytes, if_neg hne,
      FileTree.decode_of_none hnone]
    exact ⟨[], rfl⟩
  | cons b r =>
    obtain rfl := hr b rfl
    rw [linesOfBytes_append_feed hbad, FileTree.decode_of_none hnone]
    exact ⟨_, rfl⟩

/-! ## Files -/

variable {properties : Properties} {source : Text}

/-- Reading stops at an unreadable line, if it has not stopped before. -/
theorem addLines_append_error (before rest : List (Except FileFault Text)) (fault : FileFault)
    (l : Loaded) : l.addLines properties source (before ++ .error fault :: rest) =
      match l.addLines properties source before with
      | (l', none) => ({ l with store := l'.store }, some (.unreadable source fault))
      | (l', some e) => (l', some e) := by
  unfold addLines
  rw [Reading.feedAll_append]
  rcases Reading.feedAll properties source 1 before { store := l.store } with ⟨s, _ | e⟩ <;> rfl

/-- **A file is read as the text it holds.** When its bytes stand for no text, it is read as the
text before the first line that stands for none; that line stops the reading unless a line before
it does. -/
theorem addFile_eq_addText {tree : FileTree} {path : Text} {content : Bytes}
    (properties : Properties) (l : Loaded) (h : tree.read path = .ok content) :
    (∀ text, content = encode text →
      l.addFile tree properties path = l.addText properties path text) ∧
    ((∀ text, content ≠ encode text) → ∃ (before : Text) (bad rest : Bytes),
      content = encode before ++ (bad ++ rest) ∧ (before = [] ∨ before.getLast? = some '\n') ∧
      10 ∉ bad ∧ (∀ b ∈ rest.head?, b = 10) ∧ (∀ text, bad ≠ encode text) ∧
      l.addFile tree properties path =
        match l.addText properties path before with
        | (l', none) => ({ l with store := l'.store }, some (.unreadable path .notUtf8))
        | (l', some e) => (l', some e)) := by
  have hfile : l.addFile tree properties path = l.addBytes properties path content := by
    rw [addFile, h]
  rw [hfile]
  constructor
  · rintro text rfl
    rw [addBytes, linesOfBytes_encode]
    rfl
  · intro hno
    rcases exists_text_or_bad_line content with ⟨text, htext⟩ |
      ⟨qs, bad, rest, hqs, rfl, hbad, hrest, hnone⟩
    · exact absurd htext (hno text)
    · obtain ⟨lines, hlines⟩ := linesOfBytes_bad hbad hrest hnone
      refine ⟨Text.unlines qs, bad, rest, rfl, Text.unlines_eq_nil_or_getLast? qs, hbad, hrest,
        decode?_eq_none_iff.1 hnone, ?_⟩
      rw [addBytes, linesOfBytes_unlines_append hqs, hlines, addLines_append_error,
        ← Text.lines_unlines hqs]
      rfl

theorem addFile_eq_addText_cut :
    let text : Text := "module:foo\r\noptional:a\r"
    let cut : Bytes := encode text ++ [10, 0xC3, 10]
    let tree : FileTree := ⟨[(["a"], .file (encode text)), (["b"], .file cut)], []⟩
    let l : Loaded := { warnings := [⟨"c", 3, "bogus", .unrecognized⟩] }
    tree.read "/a" = .ok (encode text) ∧
      l.addFile tree .none "/a" = l.addText .none "/a" text ∧
      tree.read "/b" = .ok cut ∧ (∀ t, cut ≠ encode t) ∧
      ∃ (before : Text) (bad rest : Bytes), cut = encode before ++ (bad ++ rest) ∧
        (before = [] ∨ before.getLast? = some '\n') ∧ 10 ∉ bad ∧ (∀ b ∈ rest.head?, b = 10) ∧
        (∀ t, bad ≠ encode t) ∧
        l.addFile tree .none "/b" =
          match l.addText .none "/b" before with
          | (l', none) => ({ l with store := l'.store }, some (.unreadable "/b" .notUtf8))
          | (l', some e) => (l', some e) := by
  intro text cut tree l
  have ha : tree.read "/a" = .ok (encode text) := rfl
  have hb : tree.read "/b" = .ok cut := rfl
  have hcut : ∀ t, cut ≠ encode t := decode?_eq_none_iff.1 (by decide +kernel)
  exact ⟨ha, (addFile_eq_addText .none l ha).1 text rfl, hb, hcut,
    (addFile_eq_addText .none l hb).2 hcut⟩

end Loaded

end ModuleRules
