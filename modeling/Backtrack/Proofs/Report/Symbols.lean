import Backtrack.CommandLine
import Backtrack.Proofs.Text.Decimal
import Backtrack.Proofs.Text.Lines
import Backtrack.Proofs.Text.Quoted

/-! The report on a symbol says all that is known of it. Symbols are written so that each ends where it ends, whatever
comes behind it: the end of input, quotes, blanks and brackets are not taken for one another. With the numbers before
them, which end at a blank or a colon, no two reports are written alike; and there is no line break in any of them. -/

namespace Backtrack

open Text (isPrintable isPrintable_of_ascii)

/-! ### Reading symbols -/

namespace Symbol

/-- The symbol that is written at the beginning of a text, and what follows it. -/
def read? : List Char → Option (Symbol × List Char)
  | '<' :: 'E' :: 'O' :: 'F' :: '>' :: rest => some (.eof, rest)
  | '\'' :: rest => (Text.unescape? rest).map fun (c, rest) => (.char c, rest.tail)
  | _ => none

theorem read?_chars (s : Symbol) (rest : List Char) : read? (s.chars ++ rest) = some (s, rest) := by
  cases s with
  | eof => rfl
  | char c =>
      rw [chars, Text.quoteChar, List.append_assoc, List.append_assoc, List.singleton_append, List.singleton_append,
        read?, Text.unescape?_escape (.inl rfl)]
      rfl

/-- A symbol ends where it ends, whatever is written behind it. -/
theorem chars_append_inj {s t : Symbol} {rest others : List Char} :
    s.chars ++ rest = t.chars ++ others ↔ s = t ∧ rest = others := by
  constructor
  · intro h
    have hread := congrArg read? h
    rw [read?_chars, read?_chars, Option.some.injEq, Prod.mk.injEq] at hread
    exact hread
  · rintro ⟨rfl, rfl⟩
    rfl

theorem toString_injective : Function.Injective (toString : Symbol → String) := by
  intro s t h
  have hchars : s.chars ++ [] = t.chars ++ [] := by
    rw [List.append_nil, List.append_nil]
    exact String.ofList_injective h
  exact (chars_append_inj.mp hchars).1

theorem isPrintable_of_mem_chars {s : Symbol} {c : Char} (h : c ∈ s.chars) : isPrintable c = true := by
  cases s with
  | eof => exact Text.isPrintable_of_mem_ascii (by decide) h
  | char d =>
      rw [chars, Text.quoteChar, List.mem_append, List.mem_append, List.mem_singleton] at h
      rcases h with (rfl | h) | rfl
      · exact isPrintable_of_ascii (by decide) (by decide)
      · exact Text.isPrintable_of_mem_escape (.inl rfl) h
      · exact isPrintable_of_ascii (by decide) (by decide)

/-- Every symbol behind a blank. -/
def spaced (symbols : List Symbol) : List Char :=
  symbols.flatMap fun s => ' ' :: s.chars

theorem intercalate_chars (s : Symbol) (others : List Symbol) :
    [' '].intercalate ((s :: others).map chars) = s.chars ++ spaced others := by
  induction others generalizing s with
  | nil => simp [spaced]
  | cons t others ih =>
      rw [List.map_cons, List.map_cons, List.intercalate_cons_cons, ← List.map_cons, ih, spaced, spaced,
        List.flatMap_cons, List.append_assoc]
      rfl

/-- A list of symbols ends at its bracket, also where a bracket is one of the symbols. -/
theorem spaced_append_inj {symbols others : List Symbol} (h : spaced symbols ++ [']'] = spaced others ++ [']']) :
    symbols = others := by
  induction symbols generalizing others with
  | nil =>
      cases others with
      | nil => rfl
      | cons t others => simp [spaced] at h
  | cons s symbols ih =>
      cases others with
      | nil => simp [spaced] at h
      | cons t others =>
          rw [spaced, spaced, List.flatMap_cons, List.flatMap_cons, List.append_assoc, List.append_assoc,
            List.cons_append, List.cons_append, List.cons.injEq] at h
          obtain ⟨rfl, hrest⟩ := chars_append_inj.mp h.2
          rw [ih hrest]

end Symbol

/-! ### Reports -/

namespace SymbolReport

variable {r t : SymbolReport}

theorem aheadChars_eq {s : Symbol} {others : List Symbol} (h : r.ahead = s :: others) :
    r.aheadChars = [' ', ' ', '['] ++ (s.chars ++ (Symbol.spaced others ++ [']'])) := by
  rw [aheadChars, h, Symbol.intercalate_chars, List.append_assoc, List.append_assoc]
  rfl

theorem ahead_of_aheadChars (h : r.aheadChars = t.aheadChars) : r.ahead = t.ahead := by
  cases hr : r.ahead with
  | nil =>
      cases ht : t.ahead with
      | nil => rfl
      | cons s others =>
          rw [aheadChars_eq ht, aheadChars, hr] at h
          cases h
  | cons s others =>
      cases ht : t.ahead with
      | nil =>
          rw [aheadChars_eq hr, aheadChars, ht] at h
          cases h
      | cons s' others' =>
          rw [aheadChars_eq hr, aheadChars_eq ht, List.append_cancel_left_eq] at h
          obtain ⟨rfl, hrest⟩ := Symbol.chars_append_inj.mp h
          rw [Symbol.spaced_append_inj hrest]

theorem chars_injective : Function.Injective chars := by
  intro r t h
  simp only [chars, List.append_assoc, List.singleton_append] at h
  -- from the left, each field ends before what stands behind it
  obtain ⟨hindex, h⟩ := Text.leftpad_decimal_append_inj (by decide) h
  obtain ⟨hline, h⟩ := Text.leftpad_decimal_append_inj (by decide) h
  obtain ⟨hcolumn, h⟩ := Text.rightpad_decimal_append_inj h
  obtain ⟨hsymbol, h⟩ := Symbol.chars_append_inj.mp h
  have hahead := ahead_of_aheadChars h
  obtain ⟨⟨index, line, column⟩, symbol, ahead⟩ := r
  obtain ⟨⟨index', line', column'⟩, symbol', ahead'⟩ := t
  cases hindex
  cases hline
  cases hcolumn
  cases hsymbol
  cases hahead
  rfl

theorem isPrintable_of_mem_decimal {n : Nat} : ∀ c ∈ Text.decimal n, isPrintable c = true := by
  intro c hc
  have hdigit : 48 ≤ c.toNat ∧ c.toNat ≤ 57 := by
    simpa [Char.isDigit, UInt32.le_iff_toNat_le] using Text.isDigit_of_mem_decimal hc
  exact isPrintable_of_ascii (by omega) (by omega)

theorem isPrintable_of_mem_aheadChars : ∀ c ∈ r.aheadChars, isPrintable c = true := by
  cases hahead : r.ahead with
  | nil =>
      rw [aheadChars, hahead]
      intro c hc
      cases hc
  | cons s others =>
      rw [aheadChars_eq hahead, List.forall_mem_append, List.forall_mem_append, List.forall_mem_append]
      refine ⟨fun c => Text.isPrintable_of_mem_ascii (by decide), fun c => Symbol.isPrintable_of_mem_chars, ?_,
        fun c => Text.isPrintable_of_mem_ascii (by decide)⟩
      intro c hc
      rw [Symbol.spaced, List.mem_flatMap] at hc
      obtain ⟨t, -, hc⟩ := hc
      rw [List.mem_cons] at hc
      rcases hc with rfl | hc
      · exact isPrintable_of_ascii (by decide) (by decide)
      · exact Symbol.isPrintable_of_mem_chars hc

theorem isPrintable_of_mem_chars : ∀ c ∈ r.chars, isPrintable c = true := by
  have hblank : isPrintable ' ' = true := isPrintable_of_ascii (by decide) (by decide)
  have hcolon : isPrintable ':' = true := isPrintable_of_ascii (by decide) (by decide)
  have hblanks (width : Nat) : ∀ c ∈ List.replicate width ' ', isPrintable c = true := by
    intro c hc
    rw [List.eq_of_mem_replicate hc]
    exact hblank
  simp only [chars, List.leftpad, List.rightpad, List.forall_mem_append, List.forall_mem_singleton]
  exact ⟨⟨⟨⟨⟨⟨⟨⟨hblanks _, isPrintable_of_mem_decimal⟩, hblank⟩, hblanks _, isPrintable_of_mem_decimal⟩, hcolon⟩,
    isPrintable_of_mem_decimal, hblanks _⟩, hblank⟩, fun c => Symbol.isPrintable_of_mem_chars⟩,
    isPrintable_of_mem_aheadChars⟩

end SymbolReport

/-! ### The inspection of a file -/

namespace CommandLine

theorem exists_reports_of_inspectFile {s : Session} {path : String} {lookahead : Nat} {limit : Option Nat}
    {output : List Char} (h : (inspectFile s path lookahead limit).1 = .ok output) :
    ∃ stream opened reports, openFile s path = (.ok stream, opened) ∧
      (Stream.inspect lookahead limit stream (opened.report #[.inspecting path]).journal).result = .ok reports ∧
        output = reports.flatMap fun r => r.chars ++ ['\n'] := by
  rw [inspectFile] at h
  rcases hopen : openFile s path with ⟨failure | stream, opened⟩
  · rw [hopen] at h
    cases h
  · simp only [hopen, act] at h
    rcases hinspect : Stream.inspect lookahead limit stream (opened.report #[.inspecting path]).journal with
      ⟨stop | reports, after, journal⟩
    · simp only [hinspect] at h
      cases h
    · simp only [hinspect] at h
      exact ⟨stream, opened, reports, rfl, by rw [hinspect], (Except.ok.inj h).symm⟩

/-- The reports on the symbols of a file are told apart by what is written of them, and so are the symbols, whatever is
written behind them. Every character of a report can be shown, none of them is a line break, and an inspection writes
one line for each report. -/
theorem reports_faithful :
    (∀ r : SymbolReport, ∀ c ∈ r.chars, isPrintable c = true ∧ c ∉ Text.lineBreaks) ∧
      Function.Injective SymbolReport.chars ∧ Function.Injective (toString : Symbol → String) ∧
      (∀ (s t : Symbol) (rest others : List Char), s.chars ++ rest = t.chars ++ others ↔ s = t ∧ rest = others) ∧
      ∀ (s : Session) (path : String) (lookahead : Nat) (limit : Option Nat) (output : List Char),
        (inspectFile s path lookahead limit).1 = .ok output →
          ∃ stream opened reports, openFile s path = (.ok stream, opened) ∧
            (Stream.inspect lookahead limit stream (opened.report #[.inspecting path]).journal).result = .ok reports ∧
              Text.lines output = reports.map SymbolReport.chars ++ [[]] := by
  have hprintable (r : SymbolReport) : ∀ c ∈ r.chars, isPrintable c = true ∧ c ∉ Text.lineBreaks := fun c hc =>
    ⟨SymbolReport.isPrintable_of_mem_chars c hc, Text.not_mem_lineBreaks (SymbolReport.isPrintable_of_mem_chars c hc)⟩
  refine ⟨hprintable, SymbolReport.chars_injective, Symbol.toString_injective,
    fun _ _ _ _ => Symbol.chars_append_inj, ?_⟩
  intro s path lookahead limit output h
  obtain ⟨stream, opened, reports, hopen, hinspect, rfl⟩ := exists_reports_of_inspectFile h
  refine ⟨stream, opened, reports, hopen, hinspect, ?_⟩
  have hrows : ∀ row ∈ reports.map SymbolReport.chars, '\n' ∉ row := by
    intro row hrow hmem
    obtain ⟨r, -, rfl⟩ := List.mem_map.mp hrow
    exact (hprintable r '\n' hmem).2 (by decide)
  have hlines := Text.lines_flatMap_row hrows []
  rw [List.append_nil, List.flatMap_map] at hlines
  exact hlines

/-- A quote, a line end and the end of input, each with the symbol behind it. -/
theorem reports_faithful_quote :
    let s := Session.start ⟨[("in.txt", .file [0x27, 0x0A])]⟩ ""
    let output := "     0    1:0    '\\''  ['\\n']\n     1    1:1    '\\n'  [<EOF>]\n".toList
    (inspectFile s "in.txt" 1 none).1 = .ok output ∧
      ∃ stream opened reports, openFile s "in.txt" = (.ok stream, opened) ∧
        (Stream.inspect 1 none stream (opened.report #[.inspecting "in.txt"]).journal).result = .ok reports ∧
          Text.lines output = reports.map SymbolReport.chars ++ [[]] := by
  intro s output
  have hinspect : (inspectFile s "in.txt" 1 none).1 = .ok output := by decide +kernel
  exact ⟨hinspect, reports_faithful.2.2.2.2 s "in.txt" 1 none output hinspect⟩

end CommandLine

end Backtrack
