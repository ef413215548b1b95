import AnalysisProject.Proofs.Log.Body

namespace AnalysisProject

namespace Log

def opening (level : Level) : Text :=
  Text.join ["\x7b", Json.string "timestamp", ":", Json.string timestamp, ",",
    Json.string "level", ":", Json.string level.name, ","]

def isDebug (s : Text) : Bool := Text.startsWith (opening .debug) s

theorem isDebug_line (level : Level) (component event : Text) (data : Option Data) :
    isDebug (line level component event data) = decide (level = .debug) := by
  obtain ⟨more, hbody⟩ := exists_body_eq level component event data
  rw [line, hbody]
  cases level <;> rfl

end Log

/-- Without its lines for debugging, an entry is written as if debug mode were off. -/
theorem Logger.filter_write (l : Logger) (level : Log.Level) (event : Text)
    (data : Option Log.Data) :
    (l.write level event data).filter (!Log.isDebug ·) =
      ({ l with debugMode := false } : Logger).write level event data := by
  have hline := Log.isDebug_line level l.component event data
  by_cases hl : level = .debug
  · rw [decide_eq_true hl] at hline
    rw [write, write, decide_eq_true hl]
    cases l.debugMode with
    | false => rfl
    | true => exact List.filter_cons_of_neg (by rw [hline]; exact Bool.false_ne_true)
  · rw [decide_eq_false hl] at hline
    rw [write, write, decide_eq_false hl]
    exact List.filter_cons_of_pos (by rw [hline]; rfl)

end AnalysisProject
