import PiecewiseGlyph.Glyph
import PiecewiseGlyph.Proofs.Json.Values

/-!
# Reports are read back

The JSON text of outcomes is read back as one report per outcome, in order, whatever characters are
in the labels, the formulas and the messages.

* `Outcome.IsReportedBy` says what a report says of an outcome, and what it does not say;
* `Outcome.isReportedBy_report`: the record of an outcome is such a report;
* `read_render_json` reads whole documents, with the definitions of the helper functions or without.
-/

namespace PiecewiseGlyph

open Json

/-- The member of an object under a key. -/
def Json.Value.member? (key : String) : Value → Option Value
  | .object members => (members.find? (·.1 == key)).map (·.2)
  | _ => none

namespace Outcome

/-- A record is a report of an outcome: an object without repeated keys, with the label, and with
the formula and the number of its segments, or with the message of the fault. -/
structure IsReportedBy (o : Outcome) (record : Value) : Prop where
  keys : ∃ members, record = .object members ∧ (members.map Prod.fst).Nodup
  label : record.member? "label" = some (.string o.label)
  success : ∀ f, o.result = .ok f →
    record.member? "formula" = some (.string f.latex) ∧
      record.member? "segments" = some (.natural f.segmentCount) ∧
        record.member? "error" = none ∧ record.member? "unsupported" = none
  failure : ∀ e, o.result = .error e →
    record.member? "error" = some (.string e.message) ∧
      record.member? "formula" = none ∧ record.member? "segments" = none ∧
        record.member? "unsupported" =
          if e.cause = .unsupported then some (.bool true) else none

/-- The record of an outcome is a report of it. -/
theorem isReportedBy_report (o : Outcome) : o.IsReportedBy o.report := by
  obtain ⟨label, result⟩ := o
  cases result with
  | ok f =>
    refine ⟨⟨_, rfl, by simp⟩, rfl, ?_, nofun⟩
    rintro f ⟨⟩
    exact ⟨rfl, rfl, rfl, rfl⟩
  | error e =>
    by_cases h : e.cause = .unsupported
    · have hunsupported : e.isUnsupported = true := by simp [PathError.isUnsupported, h]
      simp only [report, hunsupported, if_true]
      refine ⟨⟨_, rfl, by simp⟩, rfl, nofun, ?_⟩
      rintro e ⟨⟩
      rw [if_pos h]
      exact ⟨rfl, rfl, rfl, rfl⟩
    · have hunsupported : e.isUnsupported = false := by simp [PathError.isUnsupported, h]
      simp only [report, hunsupported, Bool.false_eq_true, if_false, List.append_nil]
      refine ⟨⟨_, rfl, by simp⟩, rfl, nofun, ?_⟩
      rintro e ⟨⟩
      rw [if_neg h]
      exact ⟨rfl, rfl, rfl, rfl⟩

/-- A report is nested once. -/
theorem legible_report (o : Outcome) (depth : Nat) : o.report.Legible (depth + 2) := by
  obtain ⟨label, result⟩ := o
  refine .object fun member hmember => ?_
  cases result with
  | ok f =>
    simp only [List.mem_cons, List.not_mem_nil, or_false] at hmember
    rcases hmember with rfl | rfl | rfl
    · exact .string _
    · exact .string _
    · exact .natural _
  | error e =>
    simp only [List.mem_append, List.mem_cons, List.not_mem_nil, or_false] at hmember
    rcases hmember with (rfl | rfl) | hmember
    · exact .string _
    · exact .string _
    · split at hmember
      · rw [List.mem_singleton.mp hmember]
        exact .bool true
      · cases hmember

end Outcome

variable {depth : Nat}

theorem legible_reports (outcomes : List Outcome) :
    (Value.array (outcomes.map Outcome.report)).Legible (depth + 3) := by
  refine .array fun v hv => ?_
  obtain ⟨o, -, rfl⟩ := List.mem_map.mp hv
  exact o.legible_report depth

theorem legible_strings (texts : List String) :
    (Value.array (texts.map .string)).Legible (depth + 2) := by
  refine .array fun v hv => ?_
  obtain ⟨text, -, rfl⟩ := List.mem_map.mp hv
  exact .string text

/-- **The JSON text of outcomes is read back.** It holds one report per outcome, in order: an array,
or an object with this array and the definitions of the two helper functions. -/
theorem read_render_json (style : Style Float) (helpers : Bool) (outcomes : List Outcome) :
    ∃ records, List.Forall₂ Outcome.IsReportedBy outcomes records ∧
      Value.read (render style helpers outcomes .json) =
        .ok (if helpers then
          .object [("glyphs", .array records),
            ("helpers", .array [.string (Helper.quadratic.definition style.quadraticName),
              .string (Helper.cubic.definition style.cubicName)])]
        else .array records) := by
  refine ⟨outcomes.map Outcome.report, ?_, Value.read_pretty ?_⟩
  · rw [List.forall₂_map_right_iff, List.forall₂_same]
    exact fun o _ => o.isReportedBy_report
  · cases helpers with
    | false => exact legible_reports outcomes
    | true =>
      refine .object fun member hmember => ?_
      rw [List.mem_cons, List.mem_singleton] at hmember
      rcases hmember with rfl | rfl
      · exact legible_reports outcomes
      · exact legible_strings style.helperDefinitions

end PiecewiseGlyph
