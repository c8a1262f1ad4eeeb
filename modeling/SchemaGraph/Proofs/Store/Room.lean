import SchemaGraph.Proofs.Number.Bounds
import SchemaGraph.Proofs.Store.Shelves

/-!
# Room for an entry

A bound of at least one leaves room for an entry.  What is written then under a new key survives its own
writing, also in a cache that was over its bound already: the oldest entries are dropped, and never all
of them.  Under a smaller bound an entry is dropped as soon as it is written, so nothing is ever held.

A bound that is set later is at least one, or it is `nan`, and that the first cache refuses before the
others are reached.  So where the settings leave room, the other caches do.
-/

namespace SchemaGraph

/-- Whether a bound leaves room for an entry, if it is a number. -/
def Value.HasRoom (v : Value) : Prop := ∀ n, v.number? = some n → Number.le (.int 1) n = true

theorem Value.hasRoom_of_number {v : Value} {n : Number} (hn : v.number? = some n)
    (hroom : Number.le (.int 1) n = true) : v.HasRoom := by
  intro m hm
  rwa [← Option.some.inj (hn.symm.trans hm)]

theorem Value.not_hasRoom_nan {v : Value} (hn : v.number? = some (.double .nan)) : ¬v.HasRoom :=
  fun hroom => absurd (hroom _ hn) (by decide)

namespace BoundedCache

variable {κ α : Type}

/-- Whether a cache came from another one under the same bound, without gaining anything if there was
nothing and the bound leaves no room. -/
structure Follows (c c' : BoundedCache κ α) : Prop where
  maxSize : c'.maxSize = c.maxSize
  entries : ¬c.maxSize.HasRoom → c.entries = [] → c'.entries = []

section Follows

variable (c : BoundedCache κ α)

theorem follows_refl : c.Follows c := ⟨rfl, fun _ hempty => hempty⟩

theorem follows_clear : c.Follows c.clear := ⟨rfl, fun _ _ => rfl⟩

theorem follows_evictFraction (fraction : Value) : c.Follows (c.evictFraction fraction).1 := by
  obtain ⟨entries, result, heq, hless⟩ := c.evictFraction_cases fraction
  rw [heq]
  refine ⟨rfl, fun _ hempty => ?_⟩
  rw [hempty] at hless
  exact List.subset_nil.mp hless

/-- A bound that leaves no room drops the only entry. -/
theorem entries_evictIfFull_singleton {entry : κ × α} (hroom : ¬c.maxSize.HasRoom)
    (hentries : c.entries = [entry]) : c.evictIfFull.1.entries = [] := by
  obtain ⟨n, hn, hsmall⟩ : ∃ n, c.maxSize.number? = some n ∧ Number.le (.int 1) n = false := by
    simpa [Value.HasRoom] using hroom
  have hsize : c.size = 1 := congrArg List.length hentries
  have hover : c.overflow = .ok 1 := by
    unfold overflow
    rw [Value.number_eq_ok.mpr hn, hsize]
    change Except.ok (if Number.le (.int 1) n = true then 0 else 1) = _
    rw [hsmall]
    rfl
  unfold evictIfFull
  rw [hover]
  change c.entries.drop 1 = []
  rw [hentries]
  rfl

theorem follows_set [BEq κ] [LawfulBEq κ] (key : κ) (item : α) : c.Follows (c.set key item).1 := by
  constructor
  · obtain ⟨entries, result, heq, -⟩ := c.set_cases key item
    rw [heq]
  · intro hroom hempty
    unfold set
    split
    · apply entries_evictIfFull_singleton
      · exact hroom
      · rw [hempty]
        rfl
    · exact hempty

end Follows

theorem maxSize_set [BEq κ] [LawfulBEq κ] (c : BoundedCache κ α) (key : κ) (item : α) :
    (c.set key item).1.maxSize = c.maxSize :=
  (c.follows_set key item).maxSize

/-- Under a bound that leaves room, an entry too many is not the only one, so never all entries are
dropped. -/
theorem overflow_lt {c : BoundedCache κ α} (hroom : c.maxSize.HasRoom) {size count : Nat}
    (hsize : c.size = size + 1) (hover : c.overflow = .ok count) : count ≤ size := by
  unfold overflow at hover
  cases hbound : c.maxSize.number with
  | error fault =>
      rw [hbound] at hover
      cases hover
  | ok bound =>
      have hone : Number.le (.int 1) bound = true := hroom bound (Value.number_eq_ok.mp hbound)
      rw [hbound] at hover
      rw [← Except.ok.inj hover, hsize]
      split
      · exact Nat.zero_le _
      · rename_i htoomany
        have hne : size ≠ 0 := by
          rintro rfl
          exact htoomany hone
        omega

/-- What is written under a new key stays, if the bound leaves room and the writing succeeds. -/
theorem get_set [BEq κ] [LawfulBEq κ] [DecidableEq κ] {c : BoundedCache κ α}
    (henabled : c.enabled = true) (hroom : c.maxSize.HasRoom) {key : κ}
    (habsent : ∀ old, (key, old) ∉ c.entries) {item : α} {count : Nat}
    (hok : (c.set key item).2 = .ok count) : (c.set key item).1.get? key = some item := by
  have hon : (c.set key item).1.enabled = true := (c.enabled_set key item).trans henabled
  have hentries : (c.set key item).1.entries = (c.entries ++ [(key, item)]).drop count := by
    have hcounted := counted_set henabled habsent item
    rw [hok] at hcounted
    exact hcounted.2
  have hkept : count ≤ c.entries.length := by
    have hsize : size { c with entries := c.entries ++ [(key, item)] } = c.entries.length + 1 :=
      List.length_append
    apply overflow_lt (c := { c with entries := c.entries ++ [(key, item)] }) hroom hsize
    unfold set at hok
    rw [if_pos henabled, Ordered.write_absent habsent] at hok
    unfold evictIfFull at hok
    cases hover : overflow { c with entries := c.entries ++ [(key, item)] } with
    | error fault =>
        rw [hover] at hok
        cases hok
    | ok dropped =>
        rw [hover] at hok
        exact congrArg Except.ok (Except.ok.inj hok)
  have hgone : ∀ old, (key, old) ∉ c.entries.drop count :=
    fun old hin => habsent old (List.mem_of_mem_drop hin)
  unfold get?
  rw [if_pos hon, hentries, List.drop_append_of_le_length hkept, ← Ordered.write_absent hgone,
    Ordered.get_write, if_pos rfl]

section Shrinking

variable (c : BoundedCache κ α) {v : Value}

theorem maxSize_shrinkTo : (c.shrinkTo v).1.maxSize = v := by
  obtain ⟨entries, result, heq, -⟩ := c.shrinkTo_cases v
  rw [heq]

/-- A cache without entries takes every bound that leaves room. -/
theorem shrinkTo_of_empty (hempty : c.entries = []) {n : Number} (hn : v.number? = some n)
    (hroom : Number.le (.int 1) n = true) : ∃ count, (c.shrinkTo v).2 = .ok count := by
  have hexcess : excess { c with maxSize := v } v = .ok 0 := by
    have hsize : size { c with maxSize := v } = 0 := congrArg List.length hempty
    unfold excess
    rw [Value.number_eq_ok.mpr hn, hsize]
    cases n with
    | int k =>
        have hk : 1 ≤ k := by simpa using hroom
        change Except.ok (0 - k).toNat = _
        rw [Int.toNat_of_nonpos (by omega)]
    | double x =>
        change (if Number.le (.double (Binary64.sub (Binary64.zero false) x)) (.int 0) = true then
          Except.ok 0 else Except.error Fault.typeMismatch) = _
        rw [if_pos (Binary64.sub_zero_le hroom)]
  refine ⟨0, ?_⟩
  unfold shrinkTo
  dsimp only
  rw [hexcess]

/-- No cache takes `nan` as its bound, but it is set. -/
theorem shrinkTo_of_nan (hn : v.number? = some (.double .nan)) :
    ∃ fault, c.shrinkTo v = ({ c with maxSize := v }, .error fault) := by
  have hexcess : ∃ fault, excess { c with maxSize := v } v = .error fault := by
    unfold excess
    rw [Value.number_eq_ok.mpr hn]
    change ∃ fault, (Number.sub (.int c.size) (.double .nan) >>= _) = .error fault
    cases hsub : Number.sub (.int c.size) (.double .nan) with
    | error fault => exact ⟨fault, rfl⟩
    | ok difference =>
        rw [Number.sub_nan hsub]
        exact ⟨_, rfl⟩
  obtain ⟨fault, hexcess⟩ := hexcess
  refine ⟨fault, ?_⟩
  unfold shrinkTo
  dsimp only
  rw [hexcess]

end Shrinking

end BoundedCache

namespace Caches

variable {κ ι ν φ δ : Type}

/-- Whether nothing is held and no bound leaves room, neither those of the caches nor the setting. -/
structure Barren (c : Caches κ ι ν φ δ) : Prop where
  settings : ¬c.settings.maxSize.HasRoom
  schemas : ¬c.schemas.maxSize.HasRoom ∧ c.schemas.entries = []
  compositions : ¬c.compositions.maxSize.HasRoom ∧ c.compositions.entries = []
  references : ¬c.references.maxSize.HasRoom ∧ c.references.entries = []
  failures : ¬c.failures.maxSize.HasRoom ∧ c.failures.entries = []
  documents : ¬c.documents.maxSize.HasRoom ∧ c.documents.entries = []

/-- Whether the caches in which a result and its document are found again leave room. -/
structure Roomy (c : Caches κ ι ν φ δ) : Prop where
  compositions : c.compositions.maxSize.HasRoom
  references : c.references.maxSize.HasRoom
  documents : c.documents.maxSize.HasRoom

/-- Caches that leave room or are barren, where documents are always remembered. -/
structure Ample (c : Caches κ ι ν φ δ) : Prop where
  remembers : c.documents.enabled = true
  room : c.Roomy ∨ c.Barren

theorem ample_empty (settings : CacheSettings) : (empty settings : Caches κ ι ν φ δ).Ample := by
  refine ⟨rfl, ?_⟩
  by_cases hroom : settings.maxSize.HasRoom
  · exact Or.inl ⟨hroom, hroom, hroom⟩
  · exact Or.inr ⟨hroom, ⟨hroom, rfl⟩, ⟨hroom, rfl⟩, ⟨hroom, rfl⟩, ⟨hroom, rfl⟩, ⟨hroom, rfl⟩⟩

/-- Whether every cache came from that of others under the same bound. -/
structure Follows (c c' : Caches κ ι ν φ δ) : Prop where
  settings : c'.settings.maxSize = c.settings.maxSize
  remembers : c'.documents.enabled = c.documents.enabled
  schemas : c.schemas.Follows c'.schemas
  compositions : c.compositions.Follows c'.compositions
  references : c.references.Follows c'.references
  failures : c.failures.Follows c'.failures
  documents : c.documents.Follows c'.documents

theorem follows_refl (c : Caches κ ι ν φ δ) : c.Follows c :=
  ⟨rfl, rfl, c.schemas.follows_refl, c.compositions.follows_refl, c.references.follows_refl,
    c.failures.follows_refl, c.documents.follows_refl⟩

namespace Ample

variable {c c' : Caches κ ι ν φ δ} (h : c.Ample)
include h

/-- Where the settings leave room, the caches do. -/
theorem roomy (hroom : c.settings.maxSize.HasRoom) : c.Roomy :=
  h.room.resolve_right fun hbarren => hbarren.settings hroom

theorem of_follows (hfollows : c.Follows c') : c'.Ample := by
  have hempty : ∀ {κ α : Type} {cache cache' : BoundedCache κ α}, cache.Follows cache' →
      ¬cache.maxSize.HasRoom ∧ cache.entries = [] →
        ¬cache'.maxSize.HasRoom ∧ cache'.entries = [] := by
    rintro κ α cache cache' hcache ⟨hroom, hentries⟩
    rw [hcache.maxSize]
    exact ⟨hroom, hcache.entries hroom hentries⟩
  refine ⟨hfollows.remembers.trans h.remembers, ?_⟩
  rcases h.room with hroomy | hbarren
  · left
    constructor
    · rw [hfollows.compositions.maxSize]
      exact hroomy.compositions
    · rw [hfollows.references.maxSize]
      exact hroomy.references
    · rw [hfollows.documents.maxSize]
      exact hroomy.documents
  · right
    refine ⟨?_, hempty hfollows.schemas hbarren.schemas,
      hempty hfollows.compositions hbarren.compositions,
      hempty hfollows.references hbarren.references, hempty hfollows.failures hbarren.failures,
      hempty hfollows.documents hbarren.documents⟩
    rw [hfollows.settings]
    exact hbarren.settings

theorem set [BEq κ] [LawfulBEq κ] (shelf : Shelf) (key : κ) (item : ν) :
    (shelf.replace c ((shelf.cache c).set key item).1).Ample := by
  have hset := (shelf.cache c).follows_set key item
  apply h.of_follows
  cases shelf with
  | schema => exact { c.follows_refl with schemas := hset }
  | composition => exact { c.follows_refl with compositions := hset }
  | reference => exact { c.follows_refl with references := hset }

theorem rememberFailure [BEq κ] [LawfulBEq κ] (key : κ) (failure : φ) :
    (c.rememberFailure key failure).1.Ample := by
  unfold Caches.rememberFailure
  split
  · exact h.of_follows { c.follows_refl with failures := c.failures.follows_set key failure }
  · exact h

theorem rememberDocument [BEq ι] [LawfulBEq ι] (name : ι) (d : δ) :
    { c with documents := (c.documents.set name d).1 }.Ample :=
  h.of_follows { c.follows_refl with
    remembers := c.documents.enabled_set name d
    documents := c.documents.follows_set name d }

theorem clearAll : c.clearAll.Ample :=
  h.of_follows ⟨rfl, rfl, c.schemas.follows_clear, c.compositions.follows_clear,
    c.references.follows_clear, c.failures.follows_clear, c.documents.follows_clear⟩

theorem evictShare (fraction : Value) : (c.evictShare fraction).1.Ample := by
  have hschemas := c.schemas.follows_evictFraction fraction
  have hcompositions := c.compositions.follows_evictFraction fraction
  have hreferences := c.references.follows_evictFraction fraction
  unfold Caches.evictShare
  split
  · rename_i heq heq' heq''
    rw [heq] at hschemas
    rw [heq'] at hcompositions
    rw [heq''] at hreferences
    exact h.of_follows { c.follows_refl with
      schemas := hschemas, compositions := hcompositions, references := hreferences }
  all_goals exact h

theorem setEnabled (flag : Value) : (c.setEnabled flag).Ample :=
  h.of_follows ⟨rfl, rfl, ⟨rfl, fun _ hempty => hempty⟩, ⟨rfl, fun _ hempty => hempty⟩,
    ⟨rfl, fun _ hempty => hempty⟩, ⟨rfl, fun _ hempty => hempty⟩, ⟨rfl, fun _ hempty => hempty⟩⟩

/-- A new bound that leaves room is set wherever it is reached, and everywhere if nothing is held. -/
theorem shrinkAll_of_room {v : Value} {n : Number} (hn : v.number? = some n)
    (hroom : Number.le (.int 1) n = true) : (c.shrinkAll v).1.Ample := by
  have hv : v.HasRoom := Value.hasRoom_of_number hn hroom
  have hset : ∀ {κ α : Type} (cache : BoundedCache κ α), (cache.shrinkTo v).1.maxSize.HasRoom := by
    intro κ α cache
    rw [cache.maxSize_shrinkTo]
    exact hv
  have hon := fun {κ α : Type} (cache : BoundedCache κ α) => cache.enabled_shrinkTo v
  rcases h.room with hroomy | hbarren
  · have hbounding : Bounding v fun c : Caches κ ι ν φ δ =>
        c.documents.enabled = true ∧ c.Roomy := by
      constructor
      · exact fun hc => ⟨hc.1, hc.2.compositions, hc.2.references, hc.2.documents⟩
      · exact fun hc => ⟨hc.1, hc.2.compositions, hc.2.references, hc.2.documents⟩
      · exact fun hc => ⟨hc.1, hset _, hc.2.references, hc.2.documents⟩
      · exact fun hc => ⟨hc.1, hc.2.compositions, hset _, hc.2.documents⟩
      · exact fun hc => ⟨hc.1, hc.2.compositions, hc.2.references, hc.2.documents⟩
      · exact fun hc => ⟨(hon _).trans hc.1, hc.2.compositions, hc.2.references, hset _⟩
    obtain ⟨hremembers, hall⟩ := hbounding.keeps_shrinkAll ⟨h.remembers, hroomy⟩
    exact ⟨hremembers, Or.inl hall⟩
  · obtain ⟨_, hschemas⟩ := c.schemas.shrinkTo_of_empty hbarren.schemas.2 hn hroom
    obtain ⟨_, hcompositions⟩ := c.compositions.shrinkTo_of_empty hbarren.compositions.2 hn hroom
    obtain ⟨_, hreferences⟩ := c.references.shrinkTo_of_empty hbarren.references.2 hn hroom
    obtain ⟨_, hfailures⟩ := c.failures.shrinkTo_of_empty hbarren.failures.2 hn hroom
    unfold Caches.shrinkAll
    dsimp only
    rw [hschemas, hcompositions, hreferences, hfailures]
    exact ⟨(hon c.documents).trans h.remembers, Or.inl ⟨hset _, hset _, hset _⟩⟩

/-- The first cache refuses `nan`, so the others keep their bounds. -/
theorem shrinkAll_of_nan {v : Value} (hn : v.number? = some (.double .nan)) :
    (c.shrinkAll v).1.Ample := by
  obtain ⟨fault, hschemas⟩ := c.schemas.shrinkTo_of_nan hn
  have hv := Value.not_hasRoom_nan hn
  unfold Caches.shrinkAll
  dsimp only
  rw [hschemas]
  refine ⟨h.remembers, ?_⟩
  rcases h.room with hroomy | hbarren
  · exact Or.inl ⟨hroomy.compositions, hroomy.references, hroomy.documents⟩
  · exact Or.inr { hbarren with settings := hv, schemas := ⟨hv, hbarren.schemas.2⟩ }

theorem configure (enabled maxSize : Value) : (c.configure enabled maxSize).1.Ample := by
  have hswitch : ∀ {c : Caches κ ι ν φ δ}, c.Ample →
      (if enabled.isNull then c else c.setEnabled enabled).Ample := by
    intro c h
    split
    · exact h
    · exact h.setEnabled enabled
  unfold Caches.configure
  dsimp only
  split
  · exact hswitch h
  · split
    · exact h
    · rename_i n hnumber
      split
      · exact h
      · rename_i hbound
        have hshrunk : (c.shrinkAll maxSize).1.Ample := by
          have hn := Value.number_eq_ok.mp hnumber
          rcases Number.le_or_nan (by simpa using hbound) with hroom | rfl
          · exact h.shrinkAll_of_room hn hroom
          · exact h.shrinkAll_of_nan hn
        split
        · rename_i heq
          rw [heq] at hshrunk
          exact hswitch hshrunk
        · rename_i heq
          rw [heq] at hshrunk
          exact hshrunk

end Ample

end Caches

end SchemaGraph
