import SchemaGraph.Proofs.Resolve.Ending

/-!
# The recursion of following, unrolled

The budget of following only makes its recursion one on a number.  Here the recursion is unrolled
some number of times, and whatever is put below is called where it would go on.  What is put there
cannot be told, once the recursion is unrolled more often than references can be followed.
-/

namespace SchemaGraph

open Relation Resolving

namespace Resolving

variable {α β : Type} {keeps : Session → Prop} {world : World}

/-- Whether two operations run alike wherever a property of sessions holds. -/
def RunsAlike (keeps : Session → Prop) (world : World) (act act' : Resolving α) : Prop :=
  ∀ s, keeps s → act world s = act' world s

theorem RunsAlike.refl (act : Resolving α) : RunsAlike keeps world act act := fun _ _ => rfl

theorem RunsAlike.bind {act act' : Resolving α} {next next' : α → Resolving β}
    (h : RunsAlike keeps world act act') (hkeep : Keeping keeps act')
    (hnext : ∀ a s t, keeps s → act' world s = (.ok a, t) →
      RunsAlike keeps world (next a) (next' a)) :
    RunsAlike keeps world (act >>= next) (act' >>= next') := by
  intro s hs
  rw [bind_apply, bind_apply, h s hs]
  have hkept := hkeep world s hs
  rcases hrun : act' world s with ⟨result, t⟩
  rw [hrun] at hkept
  cases result with
  | ok a => exact hnext a s t hs hrun t hkept
  | error failure => rfl

/-- The same operation before two that run alike. -/
theorem Keeping.runsAlike {act : Resolving α} {next next' : α → Resolving β}
    (h : Keeping keeps act) (hnext : ∀ a, RunsAlike keeps world (next a) (next' a)) :
    RunsAlike keeps world (act >>= next) (act >>= next') :=
  (RunsAlike.refl act).bind h fun a _ _ _ _ => hnext a

end Resolving

namespace Node

variable {keeps : Session → Prop} {world : World} {d : Document}
  {follow follow' : Value → Resolving Node}

/-- Whether settling a schema runs alike with two ways of following, and keeps a property. -/
structure SettlesAlike (keeps : Session → Prop) (world : World) (d : Document)
    (follow follow' : Value → Resolving Node) (n : Node) : Prop where
  alike : RunsAlike keeps world (n.settle follow d) (n.settle follow' d)
  keeping : Keeping keeps (n.settle follow' d)

theorem runsAlike_settleInto {members : List Node}
    (h : ∀ member ∈ members, SettlesAlike keeps world d follow follow' member) (merged : Merged) :
    RunsAlike keeps world (settleInto follow d merged members)
      (settleInto follow' d merged members) := by
  induction members generalizing merged with
  | nil =>
      rw [settleInto, settleInto]
      exact .refl _
  | cons member rest ih =>
      rw [settleInto, settleInto]
      have hmember := h member List.mem_cons_self
      refine hmember.alike.bind hmember.keeping fun n _ _ _ _ => ?_
      exact (keeping_lift _).runsAlike fun next =>
        ih (fun m hm => h m (List.mem_cons_of_mem _ hm)) next

theorem runsAlike_settleVariants {members : List Node}
    (h : ∀ member ∈ members, SettlesAlike keeps world d follow follow' member)
    (kind : CompositionKind) (number : Nat) :
    RunsAlike keeps world (settleVariants follow d kind number members)
      (settleVariants follow' d kind number members) := by
  induction members generalizing number with
  | nil =>
      rw [settleVariants, settleVariants]
      exact .refl _
  | cons member rest ih =>
      rw [settleVariants, settleVariants]
      have hmember := h member List.mem_cons_self
      have hrest : ∀ m ∈ rest, SettlesAlike keeps world d follow follow' m :=
        fun m hm => h m (List.mem_cons_of_mem _ hm)
      refine hmember.alike.bind hmember.keeping fun n _ _ _ _ => ?_
      have hkeep := (sequential_keeping keeps).settleVariants
        (fun m hm => (hrest m hm).keeping) kind (number + 1)
      exact (ih hrest (number + 1)).bind hkeep fun _ _ _ _ _ => .refl _

theorem runsAlike_settleKind {info : NodeInfo} {shape : CompositionShape Node}
    (h : ∀ member ∈ shape.members, SettlesAlike keeps world d follow follow' member) :
    RunsAlike keeps world (settleKind follow d info shape) (settleKind follow' d info shape) := by
  have hkeep : ∀ member ∈ shape.members, Keeping keeps (member.settle follow' d) :=
    fun m hm => (h m hm).keeping
  have hsequential := sequential_keeping keeps
  unfold settleKind
  split
  · exact (runsAlike_settleInto h _).bind (hsequential.settleInto hkeep _) fun _ _ _ _ _ => .refl _
  · split
    · exact .refl _
    · exact (runsAlike_settleVariants h _ _).bind (hsequential.settleVariants hkeep _ _)
        fun _ _ _ _ _ => .refl _
  · exact (runsAlike_settleVariants h _ _).bind (hsequential.settleVariants hkeep _ _)
      fun _ _ _ _ _ => .refl _

/-- Settling asks for nothing but the references that the schema leads to. -/
theorem settlesAlike (hsteady : Steady d keeps) {n : Node}
    (halike : ∀ target ∈ n.follows, RunsAlike keeps world (follow target) (follow' target))
    (hkeep : ∀ target ∈ n.follows, Keeping keeps (follow' target)) :
    SettlesAlike keeps world d follow follow' n := by
  refine ⟨?_, hsteady.keeping_settle hkeep⟩
  induction n using Node.nested with
  | hleaf n hn =>
      rw [settle_leaf follow d hn, settle_leaf follow' d hn]
      exact .refl _
  | href info target =>
      rw [settle_ref, settle_ref]
      exact halike target (List.mem_singleton.mpr rfl)
  | hcomposition info shape ih =>
      have hmembers : ∀ member ∈ shape.members,
          SettlesAlike keeps world d follow follow' member := by
        intro member hmember
        have hfollows : ∀ target ∈ member.follows, target ∈ (Node.composition info shape).follows :=
          fun target htarget => mem_follows_composition.mpr ⟨member, hmember, htarget⟩
        exact ⟨ih member hmember (fun target ht => halike target (hfollows target ht))
            fun target ht => hkeep target (hfollows target ht),
          hsteady.keeping_settle fun target ht => hkeep target (hfollows target ht)⟩
      rw [settle_composition, settle_composition]
      split
      · exact .refl _
      · refine (keeping_check _).runsAlike fun key => ?_
        refine (hsteady.keeping_recallNode _ _ _).runsAlike fun found => ?_
        split
        · exact .refl _
        · have hkeeping : Keeping keeps (settleKind follow' d info shape) :=
            (sequential_keeping keeps).settleKind (fun m hm => (hmembers m hm).keeping) info
          exact (runsAlike_settleKind hmembers).bind hkeeping fun _ _ _ _ _ => .refl _

end Node

/-- Following a reference, where those that it leads to are followed by `inner`. -/
def followStep (d : Document) (inner : List String → Value → Resolving Node) (path : List String)
    (target : Value) : Resolving Node := do
  let reference ← lift (Reference.given target)
  if path.contains reference then throw (.circularReference reference)
  else
    let key := cacheKey d reference
    match ← recallNode "reference" (·.references) key with
    | some node => return node
    | none =>
      match (← get).caches.failure? key with
      | some failure => throw failure
      | none =>
        let node ← d.target reference path
        let resolved ← node.settle (inner (reference :: path)) d
        keepReference key resolved
        return resolved

/-- The recursion of following, unrolled some number of times; `below` is called where it would go
on. -/
def unrolled (d : Document) (below : List String → Value → Resolving Node) :
    Nat → List String → Value → Resolving Node
  | 0 => below
  | n + 1 => followStep d (unrolled d below n)

/-- Following with a budget is the recursion unrolled as often, with a failure below. -/
theorem follow_eq_unrolled (d : Document) (budget : Nat) :
    follow d budget = unrolled d (fun _ _ => fault .budgetExhausted) budget := by
  induction budget with
  | zero => rfl
  | succ budget ih =>
      rw [unrolled, ← ih]
      rfl

section Settings

variable {d : Document} {world : World} {settings : ExternalSettings} {m : Int}

/-- Resolving does not change the external settings. -/
theorem steady_settings (d : Document) (settings : ExternalSettings) :
    Steady d fun s => s.externalSettings = settings where
  inward := fun _ _ _ _ _ hs => hs
  records := fun _ hs => hs
  reference := fun _ _ hs => hs
  composition := fun _ _ hs => hs
  schema := fun _ _ hs => hs
  failure := fun _ _ hs => hs

/-- A step of following makes only the calls that it can make. -/
theorem runsAlike_followStep {inner inner' : List String → Value → Resolving Node}
    {path : List String} {target : Value}
    (halike : ∀ n path', Calls d world settings (.follow path target) (.settle path' n) →
      ∀ t ∈ n.follows,
        RunsAlike (fun s => s.externalSettings = settings) world (inner path' t) (inner' path' t))
    (hkeep : ∀ path' t, Keeping (fun s => s.externalSettings = settings) (inner' path' t)) :
    RunsAlike (fun s => s.externalSettings = settings) world (followStep d inner path target)
      (followStep d inner' path target) := by
  have hsteady := steady_settings d settings
  unfold followStep
  refine (RunsAlike.refl _).bind (keeping_lift _) fun x s t hs hgiven => ?_
  obtain ⟨hgiven, -⟩ := lift_eq_ok hgiven
  split
  · exact .refl _
  · rename_i hpath
    refine (hsteady.keeping_recallNode _ _ _).runsAlike fun found => ?_
    split
    · exact .refl _
    · refine keeping_get.runsAlike fun state => ?_
      split
      · exact .refl _
      · refine (RunsAlike.refl _).bind (hsteady.keeping_target x path) fun n s t hs hn => ?_
        have hcall : Calls d world settings (.follow path target) (.settle (x :: path) n) :=
          .target hgiven (fun hin => hpath (List.contains_iff_mem.mpr hin)) hs hn
        have hsettle := Node.settlesAlike hsteady (halike n _ hcall) fun t _ => hkeep _ t
        exact hsettle.alike.bind hsettle.keeping fun _ _ _ _ _ => .refl _

/-- The recursion is unrolled often enough if it is unrolled more often than references can be
followed. -/
theorem runsAlike_unrolled (hdepth : settings.maxDepth.number? = some (.int m))
    (below : List String → Value → Resolving Node) {bound count budget : Nat} {path : List String}
    {target : Value} (h : (Call.follow path target).Within d m bound) (hcount : bound < count)
    (hbudget : bound < budget) :
    RunsAlike (fun s => s.externalSettings = settings) world (unrolled d below count path target)
      (follow d budget path target) := by
  induction count generalizing bound budget path target with
  | zero => exact absurd hcount (Nat.not_lt_zero _)
  | succ count ih =>
      cases budget with
      | zero => exact absurd hbudget (Nat.not_lt_zero _)
      | succ budget =>
          refine runsAlike_followStep (fun n path' hcall t ht => ?_)
            fun path' t => (steady_settings d settings).keeping_follow budget path' t
          obtain ⟨less, rfl, hinner⟩ := hcall.within_follow hdepth h
          exact ih (hinner t ht) (Nat.lt_of_succ_lt_succ hcount) (Nat.lt_of_succ_lt_succ hbudget)

/-- What it means that resolving in a document ends, under some settings and with some number of
references at most. -/
structure Document.ResolvingEnds (d : Document) (world : World) (settings : ExternalSettings)
    (limit : Nat) : Prop where
  /-- No chain of nested calls goes on for ever. -/
  wellFounded : WellFounded fun inner outer => Calls d world settings outer inner
  /-- The references that a chain has followed before its last call are different, and none of them
  was being followed at the start. -/
  distinct : ∀ c (calls : List Call), (c :: calls).IsChain (Calls d world settings) →
    ∃ fresh : List String, (c :: calls).dropLast.filterMap Call.target? = fresh.map .str ∧
      fresh.Nodup ∧ ∀ x ∈ fresh, x ∉ c.path
  /-- No chain follows more references. -/
  followed : ∀ calls : List Call, calls.IsChain (Calls d world settings) →
    (calls.filterMap Call.target?).length ≤ limit
  /-- Between two references there are not more calls than compositions are nested. -/
  settled : ∀ path n calls, (Call.settle path n :: calls).IsChain (Calls d world settings) →
    (∀ c ∈ calls, c.target? = none) → calls.length ≤ n.depth
  /-- Resolving a reference never goes below this depth of the recursion. -/
  reference : ∀ below path target, RunsAlike (fun s => s.externalSettings = settings) world
    (unrolled d below limit path target) (resolveReference d path target)
  /-- Resolving a schema never goes below this depth of the recursion. -/
  schema : ∀ below (n : Node), RunsAlike (fun s => s.externalSettings = settings) world
    (n.settle (unrolled d below limit []) d) (resolveNode d n)

theorem bound_lt_pathBudget (d : Document)
    (hdepth : settings.maxDepth.number? = some (.int m)) :
    d.known.card + (m + 1).toNat + 1 < pathBudget d settings.maxDepth := by
  have hknown := d.card_known
  have hhops : outsideBudget settings.maxDepth = (m + 1).toNat := by
    unfold outsideBudget
    rw [hdepth]
  unfold pathBudget
  omega

theorem resolveReference_apply (d : Document) (path : List String) (target : Value) (world : World)
    (s : Session) : resolveReference d path target world s =
      follow d (pathBudget d s.externalSettings.maxDepth) path target world s := by
  unfold resolveReference
  rw [bind_apply]
  rfl

/-- Every budget beyond the number of references that can be followed is as good as the one that is
used. -/
theorem runsAlike_resolveReference (d : Document) (world : World)
    (hdepth : settings.maxDepth.number? = some (.int m)) (path : List String) (target : Value)
    {budget : Nat} (hbudget : d.known.card + (m + 1).toNat + 1 < budget) :
    RunsAlike (fun s => s.externalSettings = settings) world (resolveReference d path target)
      (follow d budget path target) := by
  rintro s rfl
  rw [resolveReference_apply, follow_eq_unrolled d (pathBudget d _)]
  exact runsAlike_unrolled hdepth _ (Call.within_all _) (bound_lt_pathBudget d hdepth) hbudget s rfl

theorem resolveNode_apply (d : Document) (n : Node) (world : World) (s : Session) :
    resolveNode d n world s =
      n.settle (follow d (pathBudget d s.externalSettings.maxDepth) []) d world s := by
  unfold resolveNode
  rw [bind_apply]
  rfl

/-- Resolving ends in every document, every world and every session. -/
theorem Document.resolving_ends (d : Document) (world : World)
    (hdepth : settings.maxDepth.number? = some (.int m)) :
    d.ResolvingEnds world settings (d.known.card + (max 0 (m + 1)).toNat + 2) := by
  have hlimit : d.known.card + (m + 1).toNat + 1 < d.known.card + (max 0 (m + 1)).toNat + 2 := by
    omega
  have hunrolled : ∀ below path target,
      RunsAlike (fun s => s.externalSettings = settings) world
        (unrolled d below (d.known.card + (max 0 (m + 1)).toNat + 2) path target)
        (follow d (pathBudget d settings.maxDepth) path target) := fun below path target =>
    runsAlike_unrolled hdepth below (Call.within_all _) hlimit (bound_lt_pathBudget d hdepth)
  refine ⟨wellFounded_calls d world hdepth, fun c calls hchain => distinct_targets hchain, ?_,
    fun path n calls hchain h => length_settles_le hchain h, ?_, ?_⟩
  · intro calls hchain
    cases calls with
    | nil => exact Nat.zero_le _
    | cons c rest =>
        have hlength := length_targets_le hdepth hchain c.within_all
        omega
  · rintro below path target s rfl
    rw [resolveReference_apply]
    exact hunrolled below path target s rfl
  · rintro below n s rfl
    have hsettle := Node.settlesAlike (n := n) (steady_settings d s.externalSettings)
      (fun target _ => hunrolled below [] target)
      fun target _ => (steady_settings d s.externalSettings).keeping_follow _ [] target
    rw [resolveNode_apply]
    exact hsettle.alike s rfl

/-- A world in which every document that is fetched refers to a further one. -/
def endlessWorld : World where
  workingDirectory := default
  files := []
  reply := fun url _ => (.int 0, .answered ⟨200,
    "\x7b\"openapi\": \"3.0.0\", \"info\": \x7b\"title\": \"T\", \"version\": \"1\"\x7d, " ++
    "\"components\": \x7b\"schemas\": \x7b\"A\": \x7b\"$ref\": \"" ++ url ++
    "/next#/components/schemas/A\"\x7d\x7d\x7d\x7d", none⟩)
  followsRedirects := true

/-- A document that refers to it. -/
def endlessDocument : Document :=
  ⟨Value.record [("$ref", .str "https://example.com/a#/components/schemas/A")], "", 0⟩

theorem resolving_ends_endless :
    ({} : ExternalSettings).maxDepth.number? = some (.int 10) ∧
      endlessDocument.ResolvingEnds endlessWorld {} 14 := by
  have hknown : endlessDocument.known.card = 1 := rfl
  have hends : endlessDocument.ResolvingEnds endlessWorld {}
      (endlessDocument.known.card + (max 0 ((10 : Int) + 1)).toNat + 2) :=
    endlessDocument.resolving_ends endlessWorld rfl
  rw [hknown] at hends
  exact ⟨rfl, hends⟩

/-- On the path of every nested call, there are no more references into other documents than were there
at the start or one more than the settings allow. -/
theorem hops_le_of_nested (hdepth : settings.maxDepth.number? = some (.int m)) {c inner : Call}
    (h : ReflTransGen (Calls d world settings) c inner) :
    (inner.hops d : Int) ≤ max (c.hops d : Int) (m + 1) := by
  induction h with
  | refl => exact le_max_left _ _
  | tail _ hcall ih => exact (hcall.hops_le hdepth).trans (max_le ih (le_max_right _ _))

/-- The first document that is fetched is reached with one reference on the path. -/
theorem hops_le_of_nested_endless :
    let x := "https://example.com/a#/components/schemas/A"
    ∃ n, ReflTransGen (Calls endlessDocument endlessWorld {}) (.follow [] (.str x)) (.settle [x] n) ∧
      (Call.settle [x] n).hops endlessDocument = 1 ∧
        (((Call.settle [x] n).hops endlessDocument : Nat) : Int) ≤ max 0 (10 + 1) := by
  intro x
  have hfetched : (endlessDocument.target x [] endlessWorld
      (Session.start {} (.int 0, .int 0) 1)).1.isOk = true := by decide +kernel
  rcases hrun : endlessDocument.target x [] endlessWorld (Session.start {} (.int 0, .int 0) 1) with
    ⟨result, t⟩
  rw [hrun] at hfetched
  obtain ⟨n, rfl⟩ : ∃ n, result = .ok n := by
    cases result with
    | ok n => exact ⟨n, rfl⟩
    | error failure => cases hfetched
  have hgiven : Reference.given (.str x) = .ok x := Reference.given_eq_ok.mpr (by decide +kernel)
  have hcall : Calls endlessDocument endlessWorld {} (.follow [] (.str x)) (.settle [x] n) :=
    .target hgiven List.not_mem_nil rfl hrun
  have hnested := ReflTransGen.single hcall
  have hhops : (Call.settle [x] n).hops endlessDocument = 1 := by
    change ([x].filter endlessDocument.leadsOutside).length = 1
    decide +kernel
  exact ⟨n, hnested, hhops, hops_le_of_nested rfl hnested⟩

end Settings

end SchemaGraph
