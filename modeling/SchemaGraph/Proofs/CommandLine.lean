import SchemaGraph.CommandLine
import SchemaGraph.Proofs.Json.Canonical
import SchemaGraph.Proofs.Outcome

/-!
# What the command leaves behind

A call writes its file in one place, behind everything that reads, resolves and looks for a place to
write to.  So a call that fails before leaves the file alone.  Only two things can go wrong behind: a
key without a JSON text cuts the text short, and the report on the run may not come about.  A call that
finishes has written the whole text.
-/

namespace SchemaGraph

theorem Value.entriesSpelled_iff (entries : List (Value × Value)) :
    entriesSpelled entries = true ↔
      ∀ entry ∈ entries, (Json.keyText? entry.1).isSome = true ∧ entry.2.isSpelled = true := by
  induction entries with
  | nil => simp [entriesSpelled]
  | cons entry rest ih =>
      rw [entriesSpelled, Bool.and_eq_true, Bool.and_eq_true, ih, List.forall_mem_cons]

namespace CommandLine

variable {world : World} {memory : Number × Number} {c : Call} {schemas : Table Node} {s : Session}

/-- Whether the names of schemas, and all keys in what they are written as, have JSON texts. -/
def Spelled (schemas : Table Node) : Prop :=
  ∀ entry ∈ schemas, (Json.keyText? entry.1).isSome = true ∧ entry.2.write.isSpelled = true

/-- What is written of schemas, beside a command line. -/
def content (line : String) (schemas : Table Node) : Value :=
  Value.record [("x-generated-by", .str line),
    ("schemas", .map (schemas.map fun entry => (entry.1, entry.2.write)))]

theorem isSpelled_content (line : String) (schemas : Table Node) :
    (content line schemas).isSpelled = true ↔ Spelled schemas := by
  have hcontent : (content line schemas).isSpelled =
      Value.entriesSpelled (schemas.map fun entry => (entry.1, entry.2.write)) :=
    Bool.and_true _
  rw [hcontent, Value.entriesSpelled_iff, List.forall_mem_map]
  rfl

/-- The text of a file shows the command line and the schemas, and stops where these do. -/
theorem outputText_eq_ok {emission : Json.Emission}
    (h : outputText world c schemas = .ok emission) :
    ∃ line, shown world parameters c.values = .ok line ∧
      emission = (Json.emit Json.indented 0 (content line schemas)).andThen fun _ => .ofText "\n" := by
  obtain ⟨line, hline, h⟩ := bind_eq_ok.mp h
  exact ⟨line, orFail_eq_ok.mp hline, (Except.ok.inj h).symm⟩

/-- Nothing cuts the text short if every key has a text; then it is the JSON text and a line feed. -/
theorem outputText_of_spelled {emission : Json.Emission} (hspelled : Spelled schemas)
    (h : outputText world c schemas = .ok emission) :
    ∃ line text, shown world parameters c.values = .ok line ∧
      Json.render Json.indented (content line schemas) = .ok text ∧
      emission = .ofText (text ++ "\n") := by
  obtain ⟨line, hline, rfl⟩ := outputText_eq_ok h
  have hfault : (Json.emit Json.indented 0 (content line schemas)).fault = none :=
    Json.fault_emit_eq_none.mpr ((isSpelled_content line schemas).mpr hspelled)
  refine ⟨line, (Json.emit Json.indented 0 (content line schemas)).text, hline, ?_, ?_⟩
  · unfold Json.render Json.Emission.complete
    rw [hfault]
  · unfold Json.Emission.andThen
    rw [hfault]
    rfl

/-- A key without a text cuts the text short. -/
theorem spelled_of_outputText {emission : Json.Emission}
    (h : outputText world c schemas = .ok emission) (hfault : emission.fault = none) :
    Spelled schemas := by
  obtain ⟨line, -, rfl⟩ := outputText_eq_ok h
  rw [Json.fault_andThen_eq, Option.orElse_eq_none] at hfault
  exact (isSpelled_content line schemas).mp (Json.fault_emit_eq_none.mp hfault.1)

theorem fileOf_eq_ok {path : String} {emission : Json.Emission}
    (h : fileOf world c schemas = .ok (path, emission)) :
    outputText world c schemas = .ok emission ∧ c.output = some path ∧
      writable world (Path.read path) = .ok () := by
  obtain ⟨text, htext, h⟩ := bind_eq_ok.mp h
  cases houtput : c.output with
  | none =>
      rw [houtput] at h
      cases h
  | some output =>
      rw [houtput] at h
      obtain ⟨⟨⟩, hwritable, h⟩ := bind_eq_ok.mp h
      obtain ⟨rfl, rfl⟩ := Prod.mk.inj (Except.ok.inj h)
      exact ⟨htext, rfl, orFail_eq_ok.mp hwritable⟩

/-- Whether a call resolves some schemas, and the session in which it has done so. -/
def Call.Resolves (c : Call) (world : World) (memory : Number × Number) (schemas : Table Node)
    (s : Session) : Prop :=
  ∃ config, configOf world c = .ok config ∧
    resolvedDocument c world (Session.start config memory 1) = (.ok schemas, s)

/-- How a call can end. -/
inductive Ends (world : World) (memory : Number × Number) (c : Call) : Run → Prop
  /-- Something fails before the file is opened. -/
  | unwritten (failure : Failure) (trace : List Event) :
      Ends world memory c ⟨.failed failure, none, trace⟩
  /-- A key without a text cuts the file short. -/
  | cut {schemas : Table Node} {s : Session} {path : String} {emission : Json.Emission} {fault : Fault}
      (hresolves : c.Resolves world memory schemas s)
      (hfile : fileOf world c schemas = .ok (path, emission)) (hfault : emission.fault = some fault) :
      Ends world memory c ⟨.failed (.fault fault), some (path, emission.text), s.trace⟩
  /-- The file is written, but there is no report on the run. -/
  | unreported {schemas : Table Node} {s : Session} {path : String} {emission : Json.Emission}
      {failure : Failure} (trace : List Event) (hresolves : c.Resolves world memory schemas s)
      (hfile : fileOf world c schemas = .ok (path, emission)) (hfault : emission.fault = none)
      (hmetrics : c.metrics = true) (hreport : (Engine.reportText world s).1 = .error failure) :
      Ends world memory c ⟨.failed failure, some (path, emission.text), trace⟩
  | finished {schemas : Table Node} {s : Session} {path : String} {emission : Json.Emission}
      (output : String) (trace : List Event) (hresolves : c.Resolves world memory schemas s)
      (hfile : fileOf world c schemas = .ok (path, emission)) (hfault : emission.fault = none) :
      Ends world memory c ⟨.finished output, some (path, emission.text), trace⟩

theorem ends_runCall (world : World) (memory : Number × Number) (c : Call) :
    Ends world memory c (runCall world memory c) := by
  unfold runCall
  cases hconfig : configOf world c with
  | error failure => exact .unwritten failure []
  | ok config =>
      dsimp only
      rcases hrun : (resolvedDocument c world).run (Session.start config memory 1) with ⟨result, s⟩
      cases result with
      | error failure => exact .unwritten failure s.trace
      | ok schemas =>
          have hresolves : c.Resolves world memory schemas s := ⟨config, hconfig, hrun⟩
          dsimp only
          cases hfile : fileOf world c schemas with
          | error failure => exact .unwritten failure s.trace
          | ok file =>
              obtain ⟨path, emission⟩ := file
              dsimp only
              cases hfault : emission.fault with
              | some fault => exact .cut hresolves hfile hfault
              | none =>
                  dsimp only
                  split
                  · rename_i hmetrics
                    rcases hreport : (Engine.reportText world).run s with ⟨report, t⟩
                    cases report with
                    | ok text => exact .finished _ _ hresolves hfile hfault
                    | error failure =>
                        exact .unreported _ hresolves hfile hfault hmetrics (congrArg Prod.fst hreport)
                  · exact .finished _ _ hresolves hfile hfault

/-- What a run leaves behind.  A run that fails, or whose command line cannot be read, leaves the file
alone, unless it is a call that has resolved a schema with a key without a JSON text, or one that cannot
report on itself.  A call that finishes has written the JSON text of all the schemas that it has resolved,
beside the command line, to the file that it was given, and ended it with a line feed. -/
structure Leaves (world : World) (memory : Number × Number) (parts : List String) (result : Run) :
    Prop where
  failed : (∀ output, result.ending ≠ .finished output) → result.written = none ∨
    ∃ c schemas s, readCall world parts = some (.call c) ∧ c.Resolves world memory schemas s ∧
      (¬Spelled schemas ∨
        c.metrics = true ∧ ∃ failure, (Engine.reportText world s).1 = .error failure)
  finished : ∀ c output, readCall world parts = some (.call c) → result.ending = .finished output →
    ∃ schemas s path line text, c.Resolves world memory schemas s ∧ c.output = some path ∧
      writable world (Path.read path) = .ok () ∧ shown world parameters c.values = .ok line ∧
      Json.render Json.indented (content line schemas) = .ok text ∧
      result.written = some (path, text ++ "\n")

/-- Only a key without a text and a failing report go wrong after the file was opened. -/
theorem unwritten_of_failed {parts : List String}
    (h : ∀ output, (run world memory parts).ending ≠ .finished output) :
    (run world memory parts).written = none ∨
      ∃ c schemas s, readCall world parts = some (.call c) ∧ c.Resolves world memory schemas s ∧
        (¬Spelled schemas ∨
          c.metrics = true ∧ ∃ failure, (Engine.reportText world s).1 = .error failure) := by
  unfold run at h ⊢
  cases hread : readCall world parts with
  | none => exact Or.inl rfl
  | some asked =>
      rw [hread] at h
      cases asked with
      | help => exact absurd rfl (h usage)
      | call c =>
          have hends := ends_runCall world memory c
          dsimp only at h ⊢
          generalize runCall world memory c = result at h hends ⊢
          cases hends with
          | unwritten failure trace => exact Or.inl rfl
          | @cut schemas s path emission fault hresolves hfile hfault =>
              refine Or.inr ⟨c, schemas, s, rfl, hresolves, Or.inl fun hspelled => ?_⟩
              obtain ⟨line, text, -, -, rfl⟩ := outputText_of_spelled hspelled (fileOf_eq_ok hfile).1
              cases hfault
          | @unreported schemas s path emission failure trace hresolves _ _ hmetrics hreport =>
              exact Or.inr ⟨c, schemas, s, rfl, hresolves, Or.inr ⟨hmetrics, failure, hreport⟩⟩
          | finished output trace => exact absurd rfl (h output)

theorem written_of_finished {output : String}
    (h : (runCall world memory c).ending = .finished output) :
    ∃ schemas s path line text, c.Resolves world memory schemas s ∧ c.output = some path ∧
      writable world (Path.read path) = .ok () ∧ shown world parameters c.values = .ok line ∧
      Json.render Json.indented (content line schemas) = .ok text ∧
      (runCall world memory c).written = some (path, text ++ "\n") := by
  have hends := ends_runCall world memory c
  generalize runCall world memory c = result at h hends ⊢
  cases hends with
  | finished output trace hresolves hfile hfault =>
      obtain ⟨hemission, houtput, hwritable⟩ := fileOf_eq_ok hfile
      obtain ⟨line, text, hline, htext, rfl⟩ :=
        outputText_of_spelled (spelled_of_outputText hemission hfault) hemission
      exact ⟨_, _, _, line, text, hresolves, houtput, hwritable, hline, htext, rfl⟩
  | _ => cases h

/-- However a run ends, what it leaves behind is as it should be. -/
theorem leaves_run (world : World) (memory : Number × Number) (parts : List String) :
    Leaves world memory parts (run world memory parts) where
  failed := unwritten_of_failed
  finished := by
    intro c output hread hfinished
    have hrun : run world memory parts = runCall world memory c := by
      unfold run
      rw [hread]
    rw [hrun] at hfinished ⊢
    exact written_of_finished hfinished

end CommandLine

end SchemaGraph
