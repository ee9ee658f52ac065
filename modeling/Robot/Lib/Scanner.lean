import Mathlib

/-!
# The lines of a text, read with a limit

A `bufio.Scanner` over a text that is already in memory. It delivers the text line by line, without
the newline and without a carriage return before it; the last line need not end in a newline, and an
empty rest is not a line. Its buffer has a limit: a line that does not fit into it together with its
newline ends the scan, like the end of the text does. Who wants to tell the two apart has to ask the
scanner for its error.

`textLines` are the lines of the text, `scannedLines` those that are delivered and `unscannedLines`
those that are not (`scanned_append_unscanned`). Texts are lists of characters; the limit counts
bytes of their encoding in UTF-8.
-/

namespace Robot.Lib

open List

/-! ## Lines -/

/-- The lines of what is left, where `current` was read of the first one already. -/
def linesFrom (current : List Char) : List Char → List (List Char)
  | [] => if current = [] then [] else [current]
  | c :: cs => if c = '\n' then current :: linesFrom [] cs else linesFrom (current ++ [c]) cs

def textLines (text : List Char) : List (List Char) := linesFrom [] text

/-- A text without a newline is read to its end. -/
theorem linesFrom_of_not_mem : ∀ {text : List Char} (current : List Char), '\n' ∉ text →
    linesFrom current text = linesFrom (current ++ text) [] := by
  intro text
  induction text with
  | nil => intro current _; rw [append_nil]
  | cons c cs ih =>
    intro current h
    have hc : c ≠ '\n' := fun he => h (he ▸ mem_cons_self)
    have htail : '\n' ∉ cs := fun hmem => h (mem_cons_of_mem _ hmem)
    calc linesFrom current (c :: cs) = linesFrom (current ++ [c]) cs := if_neg hc
      _ = linesFrom (current ++ [c] ++ cs) [] := ih _ htail
      _ = linesFrom (current ++ c :: cs) [] := by rw [append_assoc]; rfl

theorem textLines_single {text : List Char} (hne : text ≠ []) (h : '\n' ∉ text) :
    textLines text = [text] := by
  unfold textLines
  rw [linesFrom_of_not_mem [] h, nil_append, linesFrom, if_neg hne]

/-- `dropCR`. -/
def dropCR (line : List Char) : List Char :=
  if line.getLast? = some '\r' then line.dropLast else line

/-! ## The limit -/

/-- `bufio.MaxScanTokenSize`. -/
def maxScanTokenSize : ℕ := 64 * 1024

/-- The line fits into the buffer, with its newline. -/
def fitsScanner (line : List Char) : Bool := decide (String.utf8Len line < maxScanTokenSize)

/-- What `Scan` delivers before it returns false. -/
def scannedLines (text : List Char) : List (List Char) :=
  ((textLines text).takeWhile fitsScanner).map dropCR

/-- What it does not: a line that is too long, and all after it. -/
def unscannedLines (text : List Char) : List (List Char) :=
  ((textLines text).dropWhile fitsScanner).map dropCR

theorem scanned_append_unscanned (text : List Char) :
    scannedLines text ++ unscannedLines text = (textLines text).map dropCR := by
  unfold scannedLines unscannedLines
  rw [← map_append, takeWhile_append_dropWhile]

/-- A text of one line is delivered or not. -/
theorem scannedLines_single {text : List Char} (hne : text ≠ []) (h : '\n' ∉ text) :
    scannedLines text = if fitsScanner text then [dropCR text] else [] := by
  unfold scannedLines
  rw [textLines_single hne h]
  cases hfits : fitsScanner text with
  | false => rw [takeWhile_cons_of_neg (by rw [hfits]; nofun)]; rfl
  | true => rw [takeWhile_cons_of_pos hfits]; rfl

/-- A loop over lines that may fail: what one line keeps, the loop keeps. -/
theorem foldlM_inv {α σ ε : Type} {f : σ → α → Except ε σ} {s : σ} {P : List α → σ → Prop} (hnil : P [] s)
    (hstep : ∀ {l a s s'}, P l s → f s a = .ok s' → P (l ++ [a]) s') {l : List α} :
    ∀ {s' : σ}, l.foldlM f s = .ok s' → P l s' := by
  induction l using reverseRecOn with
  | nil =>
    intro s' h
    cases h
    exact hnil
  | append_singleton l a ih =>
    intro s' h
    rw [foldlM_append] at h
    cases hl : l.foldlM f s with
    | error e =>
      rw [hl] at h
      cases h
    | ok mid =>
      rw [hl] at h
      refine hstep (ih hl) (Eq.trans ?_ h)
      show _ = foldlM f mid [a]
      rw [foldlM_cons]
      cases f mid a <;> rfl

/-! ## White space -/

/-- `unicode.IsSpace`. -/
def isSpace (c : Char) : Bool :=
  decide (c ∈ ['\t', '\n', '\x0b', '\x0c', '\r', ' ', '\u0085', '\u00a0', '\u1680', '\u2028',
    '\u2029', '\u202f', '\u205f', '\u3000']) || decide ('\u2000' ≤ c ∧ c ≤ '\u200a')

/-- `strings.TrimSpace`. -/
def trimSpace (text : List Char) : List Char := (text.dropWhile isSpace).rdropWhile isSpace

/-- Trimming stops at a character that stays. -/
theorem rdropWhile_append_cons {α : Type} {p : α → Bool} {x : α} (hx : p x = false) (l r : List α) :
    (l ++ x :: r).rdropWhile p = l ++ x :: r.rdropWhile p := by
  induction r using List.reverseRecOn with
  | nil =>
    rw [rdropWhile_concat_neg _ _ _ (by rw [hx]; nofun)]
    rfl
  | append_singleton r y ih =>
    rw [← cons_append, ← append_assoc]
    by_cases hy : p y = true
    · rw [rdropWhile_concat_pos _ _ _ hy, rdropWhile_concat_pos _ _ _ hy, ih]
    · rw [rdropWhile_concat_neg _ _ _ hy, rdropWhile_concat_neg _ _ _ hy,
        append_assoc, cons_append]

/-- What starts with a character that stays is trimmed at its end only. -/
theorem trimSpace_cons {c : Char} (hc : isSpace c = false) (text : List Char) :
    trimSpace (c :: text) = c :: text.rdropWhile isSpace := by
  unfold trimSpace
  rw [dropWhile_cons_of_neg (by rw [hc]; nofun)]
  exact rdropWhile_append_cons hc [] text

end Robot.Lib
