import AnalysisProject.Project.Basic

namespace AnalysisProject.Project

variable (p : Project) (s : Text) (b : Bool) (values : List Text) (suppressions : List Suppression)

@[simp] theorem text_setText (field other : TextField) :
    (p.setText s field).text other = if other = field then s else p.text other := by
  cases field <;> cases other <;> rfl

@[simp] theorem flag_setText (field : TextField) (other : FlagField) :
    (p.setText s field).flag other = p.flag other := by
  cases field <;> cases other <;> rfl

@[simp] theorem list_setText (field : TextField) (other : ListField) :
    (p.setText s field).list other = p.list other := by
  cases field <;> cases other <;> rfl

@[simp] theorem suppressions_setText (field : TextField) :
    (p.setText s field).suppressions = p.suppressions := by
  cases field <;> rfl

@[simp] theorem text_setFlag (field : FlagField) (other : TextField) :
    (p.setFlag b field).text other = p.text other := by
  cases field <;> cases other <;> rfl

@[simp] theorem flag_setFlag (field other : FlagField) :
    (p.setFlag b field).flag other = if other = field then b else p.flag other := by
  cases field <;> cases other <;> rfl

@[simp] theorem list_setFlag (field : FlagField) (other : ListField) :
    (p.setFlag b field).list other = p.list other := by
  cases field <;> cases other <;> rfl

@[simp] theorem suppressions_setFlag (field : FlagField) :
    (p.setFlag b field).suppressions = p.suppressions := by
  cases field <;> rfl

@[simp] theorem text_setList (field : ListField) (other : TextField) :
    (p.setList values field).text other = p.text other := by
  cases field <;> cases other <;> rfl

@[simp] theorem flag_setList (field : ListField) (other : FlagField) :
    (p.setList values field).flag other = p.flag other := by
  cases field <;> cases other <;> rfl

@[simp] theorem list_setList (field other : ListField) :
    (p.setList values field).list other = if other = field then values else p.list other := by
  cases field <;> cases other <;> rfl

@[simp] theorem suppressions_setList (field : ListField) :
    (p.setList values field).suppressions = p.suppressions := by
  cases field <;> rfl

@[simp] theorem text_setSuppressions (other : TextField) :
    text { p with suppressions := suppressions } other = p.text other := by
  cases other <;> rfl

@[simp] theorem flag_setSuppressions (other : FlagField) :
    flag { p with suppressions := suppressions } other = p.flag other := by
  cases other <;> rfl

@[simp] theorem list_setSuppressions (other : ListField) :
    list { p with suppressions := suppressions } other = p.list other := by
  cases other <;> rfl

/-- A project is nothing but its fields. -/
theorem eq_of_fields {p q : Project} (text : ∀ field, p.text field = q.text field)
    (flag : ∀ field, p.flag field = q.flag field) (list : ∀ field, p.list field = q.list field)
    (suppressions : p.suppressions = q.suppressions) : p = q := by
  cases p
  cases q
  rw [mk.injEq]
  exact ⟨text .rootPath, text .buildDir, text .importProject, text .platform,
    flag .analyzeAllVsConfigs, flag .clangAnalyzer, flag .clangTidy, list .includeDirs,
    list .defines, list .undefines, list .checkPaths,
    list .excludedPaths, list .libraries, list .addons, list .tags, suppressions⟩

end AnalysisProject.Project
