import Storefront.Proofs.Document.Whole
import Storefront.Proofs.Record.Rules
/-!
# Snapshots read back from their texts

A snapshot travels as a text: what is written for it, the members of its objects in any order, and
its numbers in any format. Reading the text gives the snapshot with each of its numbers replaced by
what the numeral of the number is read as (`Snapshot.readBack?_eq`). Everything else comes back as
it was.

So a snapshot comes back unchanged exactly if its numbers do (`Snapshot.mapNumbers?_eq_self_iff`),
which is sure of numbers with short numerals, and so of whole numbers of at most fourteen digits
(`Snapshot.read?_toText_of_forall_ofInt`). A number with many digits may come back as its neighbour
(`Snapshot.read?_toText_withBound`).
-/

namespace Storefront

open Document Record

/-! ### Numbers that may be fractions -/

namespace Condition

/-- The numbers of a condition that may be fractions. -/
def numbers : Condition → List Binary64
  | numeric _ _ bound _ => bound.toList
  | _ => []

/-- The condition with what each of its numbers is turned into, if it is. -/
def mapNumbers? (f : Binary64 → Option Binary64) : Condition → Option Condition
  | numeric fact op bound hasValue => (bound.mapM f).map (numeric fact op · hasValue)
  | c => some c

end Condition

namespace PriceRule

/-- The rule with what its price is turned into, if it is. -/
def mapNumbers? (f : Binary64 → Option Binary64) (r : PriceRule) : Option PriceRule :=
  (f r.price).map ({ r with price := · })

end PriceRule

namespace CountRule

/-- The rule with what its threshold is turned into, if it is. -/
def mapNumbers? (f : Binary64 → Option Binary64) (r : CountRule) : Option CountRule :=
  (f r.threshold).map ({ r with threshold := · })

end CountRule

namespace ProductExclusions

/-- The products to hide, with what the price of the rule is turned into. -/
def mapNumbers? (f : Binary64 → Option Binary64) (p : ProductExclusions) :
    Option ProductExclusions :=
  (p.price.mapM (PriceRule.mapNumbers? f)).map ({ p with price := · })

end ProductExclusions

namespace CategoryExclusions

/-- The categories to hide, with what the threshold of the rule is turned into. -/
def mapNumbers? (f : Binary64 → Option Binary64) (c : CategoryExclusions) :
    Option CategoryExclusions :=
  (c.productCount.mapM (CountRule.mapNumbers? f)).map ({ c with productCount := · })

end CategoryExclusions

namespace Ruleset

/-- The numbers of a rule-set that may be fractions: the bound of its condition, of prices and of
product counts, as far as they are there. -/
def numbers (r : Ruleset) : List Binary64 :=
  r.condition.numbers ++ (r.products.price.map (·.price)).toList ++
    (r.categories.productCount.map (·.threshold)).toList

/-- The rule-set with what each of its numbers is turned into, if all of them are. -/
def mapNumbers? (f : Binary64 → Option Binary64) (r : Ruleset) : Option Ruleset := do
  let condition ← r.condition.mapNumbers? f
  let products ← r.products.mapNumbers? f
  let categories ← r.categories.mapNumbers? f
  pure { r with condition, products, categories }

end Ruleset

namespace Snapshot

/-- The numbers of all rule-sets that may be fractions. -/
def numbers (s : Snapshot) : List Binary64 := s.rulesets.flatMap Ruleset.numbers

/-- The snapshot with what each of its numbers is turned into, if all of them are. -/
def mapNumbers? (f : Binary64 → Option Binary64) (s : Snapshot) : Option Snapshot :=
  (s.rulesets.mapM (Ruleset.mapNumbers? f)).map ({ s with rulesets := · })

/-- All numbers of a snapshot that may be fractions are finite. -/
def HasFiniteNumbers (s : Snapshot) : Prop := ∀ x ∈ s.numbers, x.isFinite = true

instance : DecidablePred HasFiniteNumbers := fun s ↦
  inferInstanceAs (Decidable (∀ x ∈ s.numbers, x.isFinite = true))

end Snapshot

section

variable {f : Binary64 → Option Binary64}

/-- A value that is turned into itself. -/
theorem mapM_option_eq_self_iff {α : Type} {g : α → Option α} {o : Option α} :
    o.mapM g = some o ↔ ∀ a ∈ o, g a = some a := by
  cases o with
  | none => simp
  | some a => simp

/-- A list whose elements are turned into themselves. -/
theorem mapM_list_eq_self_iff {α : Type} {g : α → Option α} {as : List α} :
    as.mapM g = some as ↔ ∀ a ∈ as, g a = some a := by
  rw [mapM_eq_some_iff, List.forall₂_same]

/-- A condition is left as it is if its bound is. -/
theorem Condition.mapNumbers?_eq_self_iff {c : Condition} :
    c.mapNumbers? f = some c ↔ ∀ x ∈ c.numbers, f x = some x := by
  cases c with
  | numeric fact op bound hasValue =>
    simp [mapNumbers?, numbers, mapM_option_eq_self_iff]
  | _ => simp [mapNumbers?, numbers]

@[simp] theorem PriceRule.mapNumbers?_eq_self_iff {r : PriceRule} :
    r.mapNumbers? f = some r ↔ f r.price = some r.price := by
  cases r
  simp [mapNumbers?]

@[simp] theorem CountRule.mapNumbers?_eq_self_iff {r : CountRule} :
    r.mapNumbers? f = some r ↔ f r.threshold = some r.threshold := by
  cases r
  simp [mapNumbers?]

@[simp] theorem ProductExclusions.mapNumbers?_eq_self_iff {p : ProductExclusions} :
    p.mapNumbers? f = some p ↔ ∀ r ∈ p.price, f r.price = some r.price := by
  cases p
  simp [mapNumbers?, mapM_option_eq_self_iff]

@[simp] theorem CategoryExclusions.mapNumbers?_eq_self_iff {c : CategoryExclusions} :
    c.mapNumbers? f = some c ↔ ∀ r ∈ c.productCount, f r.threshold = some r.threshold := by
  cases c
  simp [mapNumbers?, mapM_option_eq_self_iff]

/-- A rule-set is left as it is if its numbers are. -/
theorem Ruleset.mapNumbers?_eq_self_iff {r : Ruleset} :
    r.mapNumbers? f = some r ↔ ∀ x ∈ r.numbers, f x = some x := by
  have hsplit : r.mapNumbers? f = some r ↔ r.condition.mapNumbers? f = some r.condition ∧
      r.products.mapNumbers? f = some r.products ∧
      r.categories.mapNumbers? f = some r.categories := by
    cases r
    simp [mapNumbers?, Option.bind_eq_some_iff]
  rw [hsplit]
  simp [numbers, Condition.mapNumbers?_eq_self_iff, or_imp, forall_and]

/-- Numbers that are turned into themselves leave the snapshot as it is. -/
theorem Snapshot.mapNumbers?_eq_self_iff {s : Snapshot} :
    s.mapNumbers? f = some s ↔ ∀ x ∈ s.numbers, f x = some x := by
  have hlist : s.mapNumbers? f = some s ↔ ∀ r ∈ s.rulesets, r.mapNumbers? f = some r := by
    cases s
    simp [mapNumbers?, mapM_list_eq_self_iff]
  simp only [hlist, Ruleset.mapNumbers?_eq_self_iff, numbers, List.mem_flatMap]
  exact ⟨fun h x ⟨r, hr, hx⟩ ↦ h r hr x hx, fun h r hr x hx ↦ h x ⟨r, hr, hx⟩⟩

end

/-! ### Read back -/

section

variable {format : NumberFormat} {depth : Nat}

/-- A price rule comes back with its price read again. -/
theorem PriceRule.readBack?_eq (format : NumberFormat) (hdepth : depth < maxNesting)
    (r : PriceRule) :
    readBack? format depth r = r.mapNumbers? format.reread? := by
  refine Option.ext fun r' ↦
    read?_eq_some_iff.trans ((hasFields_reread_iff hdepth (by simp) rfl).trans ?_)
  cases r'
  simp [mapNumbers?, and_comm]

/-- A count rule comes back with its threshold read again. -/
theorem CountRule.readBack?_eq (format : NumberFormat) (hdepth : depth < maxNesting)
    (r : CountRule) :
    readBack? format depth r = r.mapNumbers? format.reread? := by
  refine Option.ext fun r' ↦
    read?_eq_some_iff.trans ((hasFields_reread_iff hdepth (by simp) rfl).trans ?_)
  cases r'
  simp [mapNumbers?, and_comm]

/-- The products to hide come back with the price of the rule read again. -/
theorem ProductExclusions.readBack?_eq (format : NumberFormat) (hdepth : depth + 1 < maxNesting)
    (p : ProductExclusions) : readBack? format depth p = p.mapNumbers? format.reread? := by
  have hprice : readBack? format (depth + 1) p.price =
      p.price.mapM (PriceRule.mapNumbers? format.reread?) := by
    rw [readBack?_option fun _ _ ↦ reread_object_ne_null _,
      funext (PriceRule.readBack?_eq format hdepth)]
  refine Option.ext fun p' ↦ read?_eq_some_iff.trans
    ((hasFields_reread_iff (Nat.lt_of_succ_lt hdepth) (by simp) rfl).trans ?_)
  cases p'
  simp [mapNumbers?, readBack?_list_eq_some hdepth, hprice, and_assoc, and_comm]

/-- The categories to hide come back with the threshold of the rule read again. -/
theorem CategoryExclusions.readBack?_eq (format : NumberFormat) (hdepth : depth + 1 < maxNesting)
    (c : CategoryExclusions) : readBack? format depth c = c.mapNumbers? format.reread? := by
  have hcount : readBack? format (depth + 1) c.productCount =
      c.productCount.mapM (CountRule.mapNumbers? format.reread?) := by
    rw [readBack?_option fun _ _ ↦ reread_object_ne_null _,
      funext (CountRule.readBack?_eq format hdepth)]
  refine Option.ext fun c' ↦ read?_eq_some_iff.trans
    ((hasFields_reread_iff (Nat.lt_of_succ_lt hdepth) (by simp) rfl).trans ?_)
  cases c'
  simp [mapNumbers?, readBack?_list_eq_some hdepth, hcount, and_assoc, and_comm]

namespace Condition

variable {c c' : Condition}

/-- What is written for a condition stands for it, if its numbers are finite. -/
theorem read?_write (h : ∀ x ∈ c.numbers, x.isFinite = true) : read? (write c) = some c := by
  have hnodup : (c.members.map Prod.fst).Nodup := by
    cases c <;> simp [members]
  have hnames : c.asked.map (·.name) = c.members.map Prod.fst := by
    cases c <;> rfl
  refine read?_of_hasFields c.tagged?_write ((hasFields_object_iff hnodup hnames).2 ?_)
  cases c with
  | numeric fact op bound hasValue =>
    have hbound : read? (write bound) = some bound := by
      cases bound with
      | none => rfl
      | some x =>
        show (read? (write x) : Option (Option Binary64)) = _
        rw [write_of_isFinite (h x (List.mem_singleton_self x))]
        rfl
    simp [members, asked, hbound]
  | customerRoles | cart | unsupported => simp [members, asked]

/-- The tag of a condition comes back, with the fields behind it read again. -/
theorem reread_write_eq (hdepth : depth < maxNesting) (c : Condition) :
    (write c).reread format depth = .object (("family", .text c.family) ::
      c.members.map fun m ↦ (m.1, m.2.reread format (depth + 1))) := by
  rw [write_eq, reread_object hdepth]
  rfl

/-- The text says what is written for the condition with other numbers. -/
theorem reread_write (hdepth : depth + 1 < maxNesting) (hc : ∀ x ∈ c.numbers, x.isFinite = true)
    (h : c.mapNumbers? format.reread? = some c') :
    (write c).reread format depth = write c' := by
  rw [reread_write_eq (Nat.lt_of_succ_lt hdepth)]
  cases c with
  | numeric fact op bound hasValue =>
    cases bound with
    | none =>
      obtain rfl := Option.some.inj h
      simp [write_eq, members, family]
      rfl
    | some x =>
      obtain ⟨_, hbound, rfl⟩ := Option.map_eq_some_iff.1 h
      obtain ⟨y, hy, rfl⟩ := Option.map_eq_some_iff.1 hbound
      have hx : (write (some x)).reread format (depth + 1) = write (some y) := by
        refine (reread_write_binary64 (hc x (List.mem_singleton_self x))).trans ?_
        rw [hy]
        rfl
      simp [write_eq, members, family, hx]
  | customerRoles | cart | unsupported =>
    obtain rfl := Option.some.inj h
    simp [write_eq, members, reread_write_list hdepth, family]

/-- Only numbers are read. -/
theorem isFinite_of_mapNumbers? (h : c.mapNumbers? format.reread? = some c') :
    ∀ x ∈ c'.numbers, x.isFinite = true := by
  match c with
  | numeric _ _ none _ | customerRoles .. | cart .. | unsupported .. =>
    obtain rfl := Option.some.inj h
    exact List.forall_mem_nil _
  | numeric _ _ (some x) _ =>
    obtain ⟨_, hbound, rfl⟩ := Option.map_eq_some_iff.1 h
    obtain ⟨y, hy, rfl⟩ := Option.map_eq_some_iff.1 hbound
    exact List.forall_mem_singleton.2 (NumberFormat.isFinite_of_reread? hy)

/-- A bound that is read as no number makes the whole condition unreadable. -/
theorem isReadable_reread_write (hdepth : depth < maxNesting)
    (hc : ∀ x ∈ c.numbers, x.isFinite = true) (h : c.mapNumbers? format.reread? = none) :
    ((write c).reread format depth).isReadable = false := by
  rw [reread_write_eq hdepth]
  match c with
  | numeric _ _ none _ | customerRoles .. | cart .. | unsupported .. => cases h
  | numeric fact op (some x) hasValue =>
    have hy : format.reread? x = none :=
      Option.map_eq_none_iff.1 (Option.map_eq_none_iff.1 h)
    have hx : (write (some x)).reread format (depth + 1) = .unreadable := by
      refine (reread_write_binary64 (hc x (List.mem_singleton_self x))).trans ?_
      rw [hy]
      rfl
    simp [members, hx, isReadable, haveReadableValues]

/-- A condition comes back with its bound read again. -/
theorem readBack?_eq (format : NumberFormat) (hdepth : depth + 1 < maxNesting)
    (hc : ∀ x ∈ c.numbers, x.isFinite = true) :
    readBack? format depth c = c.mapNumbers? format.reread? := by
  rw [readBack?]
  cases h : c.mapNumbers? format.reread? with
  | some c' => rw [reread_write hdepth hc h, read?_write (isFinite_of_mapNumbers? h)]
  | none =>
    refine Option.eq_none_iff_forall_ne_some.2 fun c' hread ↦ ?_
    obtain ⟨rest, htag, -⟩ := read?_eq_some_iff.1 hread
    have hspoilt := isReadable_reread_write (Nat.lt_of_succ_lt hdepth) hc h
    rw [tagged?_eq_none hspoilt] at htag
    cases htag

end Condition

/-- A rule-set comes back with its numbers read again, if all of them are read. -/
theorem Ruleset.readBack?_eq (format : NumberFormat) (hdepth : depth + 2 < maxNesting) {r : Ruleset}
    (hr : ∀ x ∈ r.numbers, x.isFinite = true) :
    readBack? format depth r = r.mapNumbers? format.reread? := by
  have hcondition := Condition.readBack?_eq format hdepth fun x hx ↦
    hr x (List.mem_append_left _ (List.mem_append_left _ hx))
  have hproducts := r.products.readBack?_eq format hdepth
  have hcategories := r.categories.readBack?_eq format hdepth
  refine Option.ext fun r' ↦ read?_eq_some_iff.trans
    ((hasFields_reread_iff (by omega) (by simp) rfl).trans ?_)
  cases r'
  simp [mapNumbers?, hcondition, hproducts, hcategories, Option.bind_eq_some_iff, and_assoc,
    and_comm, and_left_comm]

/-- Functions that agree on the elements of a list map it alike. -/
theorem mapM_congr {α β : Type} {g h : α → Option β} {as : List α} (hgh : ∀ a ∈ as, g a = h a) :
    as.mapM g = as.mapM h := by
  induction as with
  | nil => rfl
  | cons a as ih =>
    rw [List.forall_mem_cons] at hgh
    rw [List.mapM_cons, List.mapM_cons, hgh.1, ih hgh.2]

/-- A snapshot with finite numbers comes back with each number read again. -/
theorem Snapshot.readBack?_eq (format : NumberFormat) {s : Snapshot} (hs : s.HasFiniteNumbers) :
    readBack? format 0 s = s.mapNumbers? format.reread? := by
  have hrulesets : readBack? format 1 s.rulesets =
      s.rulesets.mapM (Ruleset.mapNumbers? format.reread?) := by
    rw [readBack?_list (by decide)]
    refine mapM_congr fun r hr ↦ Ruleset.readBack?_eq format (by decide) fun x hx ↦ hs x ?_
    exact List.mem_flatMap.2 ⟨r, hr, hx⟩
  refine Option.ext fun s' ↦ read?_eq_some_iff.trans
    ((hasFields_reread_iff (by decide) (by simp) rfl).trans ?_)
  cases s'
  simp [mapNumbers?, hrulesets, and_assoc, and_comm]

/-! ### Texts -/

instance : Readable PriceRule := ⟨fun _ ↦ isReadable_object_iff.2 (by simp)⟩

instance : Readable CountRule := ⟨fun _ ↦ isReadable_object_iff.2 (by simp)⟩

instance : Readable ProductExclusions := ⟨fun _ ↦ isReadable_object_iff.2 (by simp)⟩

instance : Readable CategoryExclusions := ⟨fun _ ↦ isReadable_object_iff.2 (by simp)⟩

/-- The tag is a text and the fields are plain. -/
instance : Readable Condition where
  isReadable_write c := by
    rw [Condition.write_eq]
    refine isReadable_object_iff.2 (List.forall_mem_cons.2 ⟨rfl, fun m hm ↦ ?_⟩)
    exact (c.isPlain_of_mem_members m hm).isReadable

instance : Readable Ruleset := ⟨fun _ ↦ isReadable_object_iff.2 (by simp)⟩

instance : Readable Snapshot := ⟨fun _ ↦ isReadable_object_iff.2 (by simp)⟩

/-- Reading a text of the record of a value is reading back what is written for it. -/
theorem bind_read?_chars (format : NumberFormat) {α : Type} [Record α] [Steady α] [Readable α]
    {a : α} {d : Document} (hd : (write a).SameForm d) :
    (parse? (String.ofList (d.chars format.text))).bind read? = readBack? format 0 a := by
  have hreadable : d.isReadable = true := hd.isReadable_eq.trans (Readable.isReadable_write a)
  rw [parse?_chars hreadable, Option.bind_some, readBack?, Steady.read?_eq (hd.reread 0)]

namespace Snapshot

/-- Whole numbers of at most fourteen digits never change, so a snapshot with no other numbers comes
back from the text with the fewest digits. -/
theorem read?_toText_of_forall_ofInt {s : Snapshot}
    (h : ∀ x ∈ s.numbers, ∃ n : Int, n.natAbs ≤ 10 ^ 14 ∧ x = .ofInt n) :
    (parse? (write s).toText).bind read? = some s := by
  have hreread : ∀ x ∈ s.numbers, NumberFormat.shortest.reread? x = some x := by
    intro x hx
    obtain ⟨n, hn, hxn⟩ := h x hx
    rw [hxn]
    exact NumberFormat.reread?_shortest_ofInt hn
  have hfinite : s.HasFiniteNumbers := fun x hx ↦ NumberFormat.isFinite_of_reread? (hreread x hx)
  refine (bind_read?_chars .shortest (.refl _)).trans ((readBack?_eq .shortest hfinite).trans ?_)
  exact mapNumbers?_eq_self_iff.2 hreread

end Snapshot

end

end Storefront
