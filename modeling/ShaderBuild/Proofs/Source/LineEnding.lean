import ShaderBuild.Directive
import ShaderBuild.Include.Line
import ShaderBuild.Proofs.Hlsl.LineEnding

/-!
# Line endings of a source file

Three readers look at a source file: for the permutations that it declares, for the files that it
includes, and for its structs. None of them minds whether a line ends in a line feed or in a
carriage return and a line feed (`line_endings_do_not_matter`), but for preprocessor lines that a
backslash continues: they are continued in the first case only
(`ContinuedLine.continuation_is_cut_off`).
-/

namespace ShaderBuild

open Hlsl Text

/-- **Line endings do not matter.** With a carriage return in front of every line feed, a text
declares the same permutations or has the same fault in the same line, and includes the same files
in the same lines. If no preprocessor line is continued, it has the same structs or the same fault
in the same line, up to carriage returns in brackets and in the fragment that is reported. -/
theorem line_endings_do_not_matter {path : Path} {text : List Char} (h : '\r' ∉ text) :
    Directive.ofText path (crlf text) = Directive.ofText path text ∧
    Include.ofText (crlf text) = Include.ofText text ∧
    ((∀ line ∈ preprocessorLines text, '\n' ∉ line) →
      stripAnswer (List.map Struct.stripReturns) (structs path (crlf text)) =
        stripAnswer (List.map Struct.stripReturns) (structs path text)) := by
  refine ⟨?_, ?_, fun uncontinued => ?_⟩
  · rw [Directive.ofText, numberedLines_crlf h, Directive.ofText]
  · rw [Include.ofText, numberedLines_crlf h, Include.ofText]
  · have hseparators : ∀ sep ∈ separatorsFrom true text, sep.head? = some '#' → '\n' ∉ sep :=
      fun sep hsep hsign =>
        uncontinued sep (List.mem_filter.2 ⟨hsep, decide_eq_true hsign⟩)
    have htokens : tokens (crlf text) = (tokens text).map Token.crlf :=
      congrArg Prod.fst (tokensFrom_crlf hseparators)
    rw [structs, htokens, structs]
    exact structsOf_crlf path (tokens text)

/-- A text with a permutation, an include, comments, a literal that is not closed, and a struct
with brackets over two lines. -/
theorem rich_source_alike :
    let text := ("// ShaderCompiler. Name: A\n#include \"a.h\"\n#define N 2\n// \\\n/* \n */ \"\n"
      ++ "struct B \x7b float3 b[N +\n 1]; \x7d;\n").toList
    '\r' ∉ text ∧ (∀ line ∈ preprocessorLines text, '\n' ∉ line) ∧
      Directive.ofText ⟨"b.hlsl"⟩ (crlf text) = Directive.ofText ⟨"b.hlsl"⟩ text ∧
      Include.ofText (crlf text) = Include.ofText text ∧
      stripAnswer (List.map Struct.stripReturns) (structs ⟨"b.hlsl"⟩ (crlf text)) =
        stripAnswer (List.map Struct.stripReturns) (structs ⟨"b.hlsl"⟩ text) := by
  intro text
  have hreturn : '\r' ∉ text := by decide +kernel
  have huncontinued : ∀ line ∈ preprocessorLines text, '\n' ∉ line := by decide +kernel
  obtain ⟨hdirectives, hincludes, hstructs⟩ :=
    @line_endings_do_not_matter ⟨"b.hlsl"⟩ text hreturn
  exact ⟨hreturn, huncontinued, hdirectives, hincludes, hstructs huncontinued⟩

namespace ContinuedLine

/-- A macro that goes on in a second line, which looks like a struct. -/
def text : List Char := "#define A \\\nstruct B \x7b float b; \x7d;\n".toList

/-- The struct in the second line. -/
def struct : Struct where
  name := "B"
  fields := [⟨none, ⟨.scalar .float, .one, .one⟩, "", "b", none⟩]
  role := .constantBuffer
  path := ⟨"a.hlsl"⟩
  line := 2

/-- The second line belongs to the macro, but with carriage returns it is read as a struct. -/
theorem continuation_is_cut_off : '\r' ∉ text ∧
    structs ⟨"a.hlsl"⟩ text = .ok [] ∧ structs ⟨"a.hlsl"⟩ (crlf text) = .ok [struct] ∧
    stripAnswer (List.map Struct.stripReturns) (structs ⟨"a.hlsl"⟩ (crlf text)) ≠
      stripAnswer (List.map Struct.stripReturns) (structs ⟨"a.hlsl"⟩ text) := by
  have hread : structs ⟨"a.hlsl"⟩ text = .ok [] := by decide +kernel
  have hcrlf : structs ⟨"a.hlsl"⟩ (crlf text) = .ok [struct] := by decide +kernel
  refine ⟨by decide, hread, hcrlf, ?_⟩
  rw [hread, hcrlf]
  exact fun heq => by cases heq

end ContinuedLine

end ShaderBuild
