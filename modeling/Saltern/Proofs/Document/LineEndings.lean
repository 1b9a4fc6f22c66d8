import Saltern.Document.Assembly
import Saltern.Proofs.Brinefile.Reformat

/-!
# Line endings

A text with CRLF for its line feeds has the same lines, and so it is read alike. It is printed in the
same lines as well: with CRLF again, or with plain line feeds where its own endings are not wanted.
-/

namespace Saltern

namespace Text

variable {t l : Text} {c : Char}

/-- A text with CRLF for each line feed. -/
def withCrlf (t : Text) : Text := replaceChar '\n' ['\r', '\n'] t

theorem withCrlf_newline (r : Text) : withCrlf ('\n' :: r) = '\r' :: '\n' :: withCrlf r := rfl

theorem withCrlf_cons (hc : c ≠ '\n') (r : Text) : withCrlf (c :: r) = c :: withCrlf r := by
  simp [withCrlf, replaceChar, hc]

theorem withCrlf_of_not_mem (h : '\n' ∉ l) : withCrlf l = l := by
  induction l with
  | nil => rfl
  | cons c l ih =>
      obtain ⟨hc, hl⟩ := List.ne_and_not_mem_of_not_mem_cons h
      rw [withCrlf_cons (Ne.symm hc), ih hl]

theorem withCrlf_append (t u : Text) : withCrlf (t ++ u) = withCrlf t ++ withCrlf u :=
  List.flatMap_append

/-- A carriage return put before a line feed ends the line with it. -/
theorem lines_withCrlf (h : '\r' ∉ t) : lines (withCrlf t) = lines t := by
  induction t with
  | nil => rfl
  | cons c r ih =>
      obtain ⟨hc, hr⟩ := List.ne_and_not_mem_of_not_mem_cons h
      by_cases hn : c = '\n'
      · rw [hn, withCrlf_newline, lines, lines, ih hr]
      · rw [withCrlf_cons hn, lines_cons hn fun h ↦ absurd h.symm hc, lines_cons hn fun h ↦ absurd h.symm hc,
          ih hr]

theorem crlfCount_cons_of_ne (hc : c ≠ '\r') (r : Text) : crlfCount (c :: r) = crlfCount r := by
  rw [crlfCount]
  exact fun _ h ↦ absurd h hc

theorem loneLfCount_cons_of_ne (hc : c ≠ '\r') (hn : c ≠ '\n') (r : Text) :
    loneLfCount (c :: r) = loneLfCount r := by
  rw [loneLfCount]
  · exact fun _ h ↦ absurd h hc
  · exact hn

theorem crlfCount_of_not_mem (h : '\r' ∉ t) : crlfCount t = 0 := by
  induction t with
  | nil => rfl
  | cons c r ih =>
      obtain ⟨hc, hr⟩ := List.ne_and_not_mem_of_not_mem_cons h
      rw [crlfCount_cons_of_ne (Ne.symm hc), ih hr]

theorem counts_withCrlf (h : '\r' ∉ t) :
    crlfCount (withCrlf t) = t.count '\n' ∧ loneLfCount (withCrlf t) = 0 := by
  induction t with
  | nil => exact ⟨rfl, rfl⟩
  | cons c r ih =>
      obtain ⟨hc, hr⟩ := List.ne_and_not_mem_of_not_mem_cons h
      obtain ⟨hcrlf, hlf⟩ := ih hr
      by_cases hn : c = '\n'
      · rw [hn, withCrlf_newline, crlfCount, loneLfCount, hcrlf, List.count_cons_self]
        exact ⟨rfl, hlf⟩
      · rw [withCrlf_cons hn, crlfCount_cons_of_ne (Ne.symm hc), loneLfCount_cons_of_ne (Ne.symm hc) hn,
          List.count_cons_of_ne hn]
        exact ⟨hcrlf, hlf⟩

end Text

namespace LineEnding

open Text

variable {t : Text} {ls : List Text}

theorem prevailing_of_not_mem (h : '\r' ∉ t) : prevailing t = .lf := by
  rw [prevailing, crlfCount_of_not_mem h, if_neg (Nat.not_lt_zero _)]

theorem prevailing_withCrlf (h : '\r' ∉ t) (hn : '\n' ∈ t) : prevailing (withCrlf t) = .crlf := by
  obtain ⟨hcrlf, hlf⟩ := counts_withCrlf h
  rw [prevailing, hcrlf, hlf, if_pos (List.count_pos_iff.mpr hn)]

/-- Lines joined with CRLF are the lines joined with line feeds, with CRLF for each. -/
theorem withCrlf_joinLines_lf (h : ∀ l ∈ ls, '\n' ∉ l) : withCrlf (joinLines .lf ls) = joinLines .crlf ls := by
  rw [joinLines_eq_flatMap, joinLines_eq_flatMap]
  induction ls with
  | nil => rfl
  | cons l ls ih =>
      obtain ⟨hl, hls⟩ := List.forall_mem_cons.mp h
      rw [List.flatMap_cons, List.flatMap_cons, withCrlf_append, withCrlf_append, withCrlf_of_not_mem hl, ih hls]
      rfl

end LineEnding

namespace Document

open Text
open Brinefile (format)

variable {t : Text}

theorem linesOf_withCrlf (h : '\r' ∉ t) : Brinefile.linesOf (withCrlf t) = Brinefile.linesOf t := by
  rw [Brinefile.linesOf, Brinefile.linesOf, lines_withCrlf h]

/-- A text is read alike with line feeds and with CRLF. Printed with its own endings it has the same
lines and CRLF again, and printed with line feeds it is the same text. -/
theorem ofText_withCrlf (h : '\r' ∉ t) :
    ofText (withCrlf t) = ofText t ∧
      ∀ b, Brinefile.ofText t = .ok b →
        ('\n' ∈ t → ∃ f f', format true t = .ok f ∧ format true (withCrlf t) = .ok f' ∧
          f'.text = withCrlf f.text) ∧
        ∃ f f', format false t = .ok f ∧ format false (withCrlf t) = .ok f' ∧ f'.text = f.text := by
  have hcut : Brinefile.ofText (withCrlf t) = Brinefile.ofText t := by
    rw [Brinefile.ofText, Brinefile.ofText, linesOf_withCrlf h]
  refine ⟨by rw [ofText, ofText, hcut], fun b hb ↦ ⟨fun hn ↦ ?_, ?_⟩⟩
  · refine ⟨_, _, Brinefile.format_of_ok hb, Brinefile.format_of_ok (hcut.trans hb), ?_⟩
    have hlf : Brinefile.ending true t = .lf := LineEnding.prevailing_of_not_mem h
    have hcrlf : Brinefile.ending true (withCrlf t) = .crlf := LineEnding.prevailing_withCrlf h hn
    rw [hlf, hcrlf]
    exact (LineEnding.withCrlf_joinLines_lf (Brinefile.newline_not_mem_printLines hb)).symm
  · exact ⟨_, _, Brinefile.format_of_ok hb, Brinefile.format_of_ok (hcut.trans hb), rfl⟩

/-- A role whose marker, entry and readme are not in canonical layout. -/
theorem ofText_withCrlf_role :
    let text : Text := "%Rolename\n r\n%description\nd\n\n\n%readme\n\n  % of it \n".toList
    '\r' ∉ text ∧ '\n' ∈ text ∧ (∃ d, ofText (withCrlf text) = .ok d ∧ ofText text = .ok d) ∧
      (∃ f f', format true text = .ok f ∧ format true (withCrlf text) = .ok f' ∧ f'.text = withCrlf f.text) ∧
      ∃ f f', format false text = .ok f ∧ format false (withCrlf text) = .ok f' ∧ f'.text = f.text := by
  intro text
  have hr : '\r' ∉ text := by decide
  have hn : '\n' ∈ text := by decide
  obtain ⟨hread, hprint⟩ := ofText_withCrlf hr
  obtain ⟨hkept, hlf⟩ := hprint _ rfl
  exact ⟨hr, hn, ⟨_, hread.trans rfl, rfl⟩, hkept hn, hlf⟩

end Document

end Saltern
