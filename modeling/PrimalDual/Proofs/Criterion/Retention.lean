import PrimalDual.Proofs.Criterion.Labels

/-!
# What a tree of criteria reports

A tree puts the statistics of its leaves together by their labels.  A label says which kind of
criterion a leaf is and which variable it looks at, and whether it is about one point or several; the
norm, the rank, the function and the threshold are not part of it.  So two leaves of one kind that look
at the same variable may use the same label, and the tree reports the number of the one further right.
The other number is lost, unless it is the same.

* `mem_mergeStatistics` — what is there of two sides.
* `Criterion.info_ok_iff`, **`statistic_tree`** — whether a tree reports anything, and what it reports
  under a label, is up to its leaves.
* `Criterion.Retains`, **`retains_iff`** — nothing is lost exactly if leaves with a common label agree.
* `Topic`, `Topic.eq_of_label` — a label tells the kind of a leaf and its variable.
* **`retains_of_topics`** — nothing is lost where no two leaves have both in common.
-/

namespace PrimalDual

namespace Criterion

variable {α : Type}

/-! ## Statistics of two sides -/

section

variable {entries a b : List (String × Number α)} {e x : String × Number α} {label : String}
  {n : Number α}

/-- A number replaces the one under the same label, and no other. -/
lemma mem_putStatistic : x ∈ putStatistic entries e ↔ x = e ∨ x ∈ entries ∧ x.1 ≠ e.1 := by
  rw [putStatistic]
  split_ifs with hany
  · obtain ⟨y, hy, hlabel⟩ := List.any_eq_true.mp hany
    simp only [List.mem_map, beq_iff_eq] at hlabel ⊢
    constructor
    · rintro ⟨z, hz, rfl⟩
      split_ifs with heq
      · exact Or.inl rfl
      · exact Or.inr ⟨hz, heq⟩
    · rintro (rfl | ⟨hx, hne⟩)
      · exact ⟨y, hy, if_pos hlabel⟩
      · exact ⟨x, hx, if_neg hne⟩
  · have hnew : x ∈ entries → x.1 ≠ e.1 := fun hx heq =>
      hany (List.any_eq_true.mpr ⟨x, hx, beq_iff_eq.mpr heq⟩)
    rw [List.mem_append, List.mem_singleton, or_comm, and_iff_left_of_imp hnew]

/-- What is on the right hides what has the same label on the left. -/
lemma mem_mergeStatistics (hb : (b.map (·.1)).Nodup) :
    x ∈ mergeStatistics a b ↔ x ∈ b ∨ x ∈ a ∧ x.1 ∉ b.map (·.1) := by
  rw [mergeStatistics]
  induction b generalizing a with
  | nil => simp
  | cons e b ih =>
    rw [List.map_cons, List.nodup_cons] at hb
    have hlast : x = e → x.1 ∉ b.map (·.1) := fun heq => heq ▸ hb.1
    rw [List.foldl_cons, ih hb.2, mem_putStatistic, List.map_cons, List.mem_cons, List.mem_cons]
    tauto

lemma lookup_isSome_iff : (entries.lookup label).isSome = true ↔ label ∈ entries.map (·.1) := by
  rw [← not_iff_not, Option.not_isSome_iff_eq_none, List.lookup_eq_none_iff]
  simp only [bne_iff_ne, List.mem_map, not_exists, not_and]
  exact forall₂_congr fun x _ => ne_comm

/-- If no label is used twice, a pair is there exactly if it is found by its label. -/
lemma lookup_eq_some_iff (h : (entries.map (·.1)).Nodup) :
    entries.lookup label = some n ↔ (label, n) ∈ entries := by
  have hmem {k : Number α} (hfound : entries.lookup label = some k) : (label, k) ∈ entries := by
    obtain ⟨before, after, rfl, -⟩ := List.lookup_eq_some_iff.mp hfound
    exact List.mem_append_right _ List.mem_cons_self
  refine ⟨hmem, fun hn => ?_⟩
  obtain ⟨k, hk⟩ := Option.isSome_iff_exists.mp (lookup_isSome_iff.mpr (List.mem_map_of_mem hn))
  cases List.inj_on_of_nodup_map h (hmem hk) hn rfl
  exact hk

end

/-! ## Labels -/

lemma nodup_putLabel {labels : List String} (h : labels.Nodup) (label : String) :
    (putLabel labels label).Nodup := by
  rw [putLabel]
  split_ifs with hmem
  · exact h
  · exact h.append (List.nodup_singleton label) (List.disjoint_singleton.mpr hmem)

lemma nodup_mergeLabels {left right : List String} (h : left.Nodup) :
    (mergeLabels left right).Nodup := by
  rw [mergeLabels]
  induction right generalizing left with
  | nil => exact h
  | cons label right ih => exact ih (nodup_putLabel h label)

variable [Scalar α]

lemma labels_of_summary {label : String} {v : NdArray α} {entries : List (String × Number α)}
    (h : summary label v = .ok entries) : entries.map (·.1) = summaryLabels label v.size := by
  rw [summary] at h
  rw [summaryLabels]
  split_ifs at h ⊢
  · obtain ⟨x, -, h⟩ := ok_of_bind h
    cases h
    rfl
  · obtain ⟨lo, -, h⟩ := ok_of_bind h
    obtain ⟨hi, -, h⟩ := ok_of_bind h
    cases h
    rfl

lemma nodup_summaryLabels (label : String) (n : ℕ) : (summaryLabels label n).Nodup := by
  rw [summaryLabels]
  split_ifs
  · exact List.nodup_singleton label
  · have hne : label ++ "_min" ≠ label ++ "_max" := by
      rw [Ne, String.append_right_inj]
      decide
    exact List.nodup_cons.mpr ⟨mt List.mem_singleton.mp hne, List.nodup_singleton _⟩

variable {c l l' left right : Criterion α} {m : Memory α} {entries : List (String × Number α)}
  {label : String} {n : Number α}

/-- No criterion uses a label twice. -/
lemma nodup_labels (h : c.info m = .ok entries) : (entries.map (·.1)).Nodup := by
  induction c generalizing entries with
  | maxIter limit count =>
    cases h
    exact List.nodup_singleton _
  | manual =>
    cases h
    exact List.nodup_nil
  | unspecified => cases h
  | maxDuration limit start elapsed =>
    cases h
    exact List.nodup_singleton _
  | memorize var memo =>
    rw [labels_of_summary h]
    exact nodup_summaryLabels _ _
  | size r norms =>
    rw [labels_of_summary h]
    exact nodup_summaryLabels _ _
  | change kind r norms previous =>
    rw [labels_of_summary h]
    exact nodup_summaryLabels _ _
  | both left right hleft hright | either left right hleft hright =>
    obtain ⟨a, ha, h⟩ := ok_of_bind h
    obtain ⟨b, hb, h⟩ := ok_of_bind h
    cases h
    rw [labels_mergeStatistics]
    exact nodup_mergeLabels (hleft ha)

/-! ## Trees -/

/-- What is reported under a label. -/
def statistic (c : Criterion α) (m : Memory α) (label : String) : Option (Number α) :=
  match c.info m with
  | .ok entries => entries.lookup label
  | .error _ => none

lemma statistic_of_info (h : c.info m = .ok entries) :
    c.statistic m label = entries.lookup label := by
  rw [statistic, h]

lemma statistic_eq_some_iff (h : c.info m = .ok entries) :
    c.statistic m label = some n ↔ (label, n) ∈ entries := by
  rw [statistic_of_info h, lookup_eq_some_iff (nodup_labels h)]

/-- A tree has statistics exactly if all of its leaves have. -/
lemma info_ok_iff (c : Criterion α) (m : Memory α) :
    (∃ entries, c.info m = .ok entries) ↔ ∀ l ∈ c.leaves, ∃ own, l.info m = .ok own := by
  induction c with
  | both left right hleft hright | either left right hleft hright =>
    rw [leaves, List.forall_mem_append, ← hleft, ← hright, info]
    constructor
    · rintro ⟨entries, h⟩
      obtain ⟨a, ha, h⟩ := ok_of_bind h
      obtain ⟨b, hb, -⟩ := ok_of_bind h
      exact ⟨⟨a, ha⟩, ⟨b, hb⟩⟩
    · rintro ⟨⟨a, ha⟩, ⟨b, hb⟩⟩
      rw [ha, hb]
      exact ⟨_, rfl⟩
  | _ => exact (List.forall_mem_singleton (p := fun l : Criterion α => ∃ own, l.info m = .ok own)).symm

omit [Scalar α] in
/-- What is found on the right comes first. -/
lemma lookup_mergeStatistics {a b : List (String × Number α)} (ha : (a.map (·.1)).Nodup)
    (hb : (b.map (·.1)).Nodup) :
    (mergeStatistics a b).lookup label = (b.lookup label).or (a.lookup label) := by
  have hmerged : ((mergeStatistics a b).map (·.1)).Nodup := by
    rw [labels_mergeStatistics]
    exact nodup_mergeLabels ha
  ext n
  rw [lookup_eq_some_iff hmerged, mem_mergeStatistics hb, Option.or_eq_some_iff,
    lookup_eq_some_iff hb, lookup_eq_some_iff ha, ← lookup_isSome_iff,
    Option.not_isSome_iff_eq_none, and_comm (a := (label, n) ∈ a)]

/-- **What a tree reports** under a label is what its last leaf with this label does. -/
theorem statistic_tree (h : c.info m = .ok entries) :
    c.statistic m label = c.leaves.reverse.findSome? (·.statistic m label) := by
  induction c generalizing entries with
  | both left right hleft hright | either left right hleft hright =>
    obtain ⟨a, ha, hmerge⟩ := ok_of_bind h
    obtain ⟨b, hb, hentries⟩ := ok_of_bind hmerge
    cases hentries
    rw [leaves, List.reverse_append, List.findSome?_append, ← hleft ha, ← hright hb,
      statistic_of_info h, statistic_of_info ha, statistic_of_info hb,
      lookup_mergeStatistics (nodup_labels ha) (nodup_labels hb)]
  | _ => exact (List.findSome?_singleton ..).symm

/-- Everything that the leaves report is there. -/
def Retains (c : Criterion α) (m : Memory α) : Prop :=
  ∃ entries, c.info m = .ok entries ∧ ∀ l ∈ c.leaves, ∃ own, l.info m = .ok own ∧ own ⊆ entries

/-- Where both use a label, they report the same number under it. -/
def Compatible (m : Memory α) (l l' : Criterion α) : Prop :=
  ∀ label n n', l.statistic m label = some n → l'.statistic m label = some n' → n = n'

lemma Compatible.refl (m : Memory α) (l : Criterion α) : Compatible m l l :=
  fun _ _ _ hn hn' => Option.some.inj (hn.symm.trans hn')

instance (m : Memory α) : Std.Symm (Compatible m) :=
  ⟨fun _ _ h label n n' hn hn' => (h label n' n hn' hn).symm⟩

/-- No two leaves report different numbers under the same label. -/
def Consistent (c : Criterion α) (m : Memory α) : Prop :=
  ∀ l ∈ c.leaves, ∀ l' ∈ c.leaves, Compatible m l l'

/-- **Nothing is lost** exactly if the leaves agree. -/
theorem retains_iff (h : c.info m = .ok entries) : c.Retains m ↔ c.Consistent m := by
  have hleaves := (info_ok_iff c m).mp ⟨entries, h⟩
  constructor
  · rintro ⟨all, hall, hretains⟩ l hl l' hl' label n n' hn hn'
    have hown {l : Criterion α} {n : Number α} (hl : l ∈ c.leaves)
        (hn : l.statistic m label = some n) : (label, n) ∈ all := by
      obtain ⟨own, hinfo, hsub⟩ := hretains l hl
      exact hsub ((statistic_eq_some_iff hinfo).mp hn)
    cases List.inj_on_of_nodup_map (nodup_labels hall) (hown hl hn) (hown hl' hn') rfl
    rfl
  · intro hconsistent
    refine ⟨entries, h, fun l hl => ?_⟩
    obtain ⟨own, hown⟩ := hleaves l hl
    refine ⟨own, hown, fun e he => ?_⟩
    have hreports : l.statistic m e.1 = some e.2 := (statistic_eq_some_iff hown).mpr he
    -- some leaf is the last one with this label, and it agrees with `l`
    have hsome : (c.leaves.reverse.findSome? (·.statistic m e.1)).isSome = true :=
      List.findSome?_isSome_iff.mpr ⟨l, List.mem_reverse.mpr hl, by rw [hreports]; rfl⟩
    obtain ⟨n, hn⟩ := Option.isSome_iff_exists.mp hsome
    obtain ⟨l', hl', hn'⟩ := List.exists_of_findSome?_eq_some hn
    cases hconsistent l hl l' (List.mem_reverse.mp hl') _ _ _ hreports hn'
    exact (statistic_eq_some_iff h).mp ((statistic_tree h).trans hn)

end Criterion

/-! ## Topics -/

/-- What the labels of a leaf say: the kind of criterion, and the variable if it looks at one. -/
inductive Topic where
  | alone (name : String)
  | about (name var : String)
  deriving DecidableEq

namespace Topic

/-- The kind of criterion. -/
def name : Topic → String
  | alone name | about name _ => name

/-- The labels of a leaf. -/
def labels : Topic → List String
  | alone name => [name]
  | about name var => ["", "_min", "_max"].map (Criterion.labelOf name var ++ ·)

/-- Texts that are divided by the first mark are divided in one way. -/
lemma divided {x : Char} {l l' r r' : List Char} (hl : x ∉ l) (hl' : x ∉ l')
    (h : l ++ x :: r = l' ++ x :: r') : l = l' ∧ r = r' := by
  have hlength : l.length = l'.length := by
    have hplace := congrArg (List.idxOf x) h
    rwa [List.idxOf_append_of_notMem hl, List.idxOf_append_of_notMem hl', List.idxOf_cons_self,
      List.idxOf_cons_self] at hplace
  obtain ⟨hbefore, hafter⟩ := List.append_inj h hlength
  exact ⟨hbefore, (List.cons.inj hafter).2⟩

lemma toList_labelOf (name var ending : String) :
    (Criterion.labelOf name var ++ ending).toList
      = name.toList ++ '[' :: (var.toList ++ ']' :: ending.toList) := by
  simp [Criterion.labelOf]

lemma bracket_mem_labelOf (name var ending : String) :
    '[' ∈ (Criterion.labelOf name var ++ ending).toList := by
  rw [toList_labelOf]
  exact List.mem_append_right _ List.mem_cons_self

/-- A label tells the kind and the variable: the name of a kind has no bracket, and neither has what
tells extremes apart. -/
lemma eq_of_label {t t' : Topic} {label : String} (ht : '[' ∉ t.name.toList)
    (ht' : '[' ∉ t'.name.toList) (h : label ∈ t.labels) (h' : label ∈ t'.labels) : t = t' := by
  cases t with
  | alone name =>
    cases List.mem_singleton.mp h
    cases t' with
    | alone name' => rw [List.mem_singleton.mp h']
    | about name' var' =>
      obtain ⟨ending, -, rfl⟩ := List.mem_map.mp h'
      exact absurd (bracket_mem_labelOf name' var' ending) ht
  | about name var =>
    obtain ⟨ending, hending, rfl⟩ := List.mem_map.mp h
    cases t' with
    | alone name' =>
      cases List.mem_singleton.mp h'
      exact absurd (bracket_mem_labelOf name var ending) ht'
    | about name' var' =>
      obtain ⟨ending', hending', heq⟩ := List.mem_map.mp h'
      have hbracket : ∀ e ∈ ["", "_min", "_max"], ']' ∉ e.toList.reverse := by decide
      have hlist := congrArg String.toList heq.symm
      rw [toList_labelOf, toList_labelOf] at hlist
      obtain ⟨hname, hrest⟩ := divided ht ht' hlist
      -- a variable may have brackets in its name, so the last one divides the rest
      have hreversed := congrArg List.reverse hrest
      simp only [List.reverse_append, List.reverse_cons, List.append_assoc, List.singleton_append]
        at hreversed
      obtain ⟨-, hvar⟩ := divided (hbracket _ hending) (hbracket _ hending') hreversed
      cases String.toList_injective hname
      cases String.toList_injective (List.reverse_injective hvar)
      rfl

end Topic

namespace Criterion

section

variable {α : Type}

/-- The topic of a leaf that has statistics. -/
def topic : Criterion α → Option Topic
  | maxIter _ _ => some (.alone "N_iter")
  | maxDuration _ _ _ => some (.alone "duration")
  | memorize var _ => some (.about "Memorize" var)
  | size r _ => some (.about "AbsError" r.var)
  | change kind r _ _ => some (.about (changeLabel kind) r.var)
  | manual | unspecified | both _ _ | either _ _ => none

/-- The topics of the leaves of a tree, from left to right. -/
def topics (c : Criterion α) : List Topic := c.leaves.filterMap topic

end

variable {α : Type} [Scalar α] {c l : Criterion α} {m : Memory α}
  {entries : List (String × Number α)} {label : String} {n : Number α} {t : Topic}

omit [Scalar α] in
lemma topic_name (h : c.topic = some t) : '[' ∉ t.name.toList := by
  have hnames : ∀ name ∈ ["N_iter", "duration", "Memorize", "AbsError", "AbsChange", "RelError"],
      '[' ∉ name.toList := by decide
  refine hnames t.name ?_
  cases c with
  | maxIter | maxDuration | memorize | size =>
    cases h
    simp [Topic.name]
  | change kind =>
    cases h
    cases kind <;> simp [Topic.name, changeLabel]
  | manual | unspecified | both | either => cases h

lemma summaryLabels_subset (name var : String) (n : ℕ) :
    summaryLabels (labelOf name var) n ⊆ (Topic.about name var).labels := by
  rw [summaryLabels]
  split_ifs <;> simp [Topic.labels]

/-- The labels of a leaf belong to its topic. -/
lemma topic_of_label (hleaf : c.IsLeaf) (h : c.info m = .ok entries)
    (hlabel : label ∈ entries.map (·.1)) : ∃ t, c.topic = some t ∧ label ∈ t.labels := by
  cases c with
  | maxIter | maxDuration =>
    cases h
    exact ⟨_, rfl, hlabel⟩
  | manual =>
    cases h
    cases hlabel
  | unspecified => cases h
  | memorize | size | change =>
    rw [labels_of_summary h] at hlabel
    exact ⟨_, rfl, summaryLabels_subset _ _ _ hlabel⟩
  | both | either => exact hleaf.elim

lemma topic_of_statistic (hleaf : c.IsLeaf) (h : c.statistic m label = some n) :
    ∃ t, c.topic = some t ∧ label ∈ t.labels := by
  rw [statistic] at h
  split at h
  · rename_i entries hinfo
    refine topic_of_label hleaf hinfo (lookup_isSome_iff.mp ?_)
    rw [h]
    rfl
  · cases h

omit [Scalar α] in
lemma isLeaf_of_mem (h : l ∈ c.leaves) : l.IsLeaf := by
  induction c with
  | both left right hleft hright | either left right hleft hright =>
    exact (List.mem_append.mp h).elim hleft hright
  | _ =>
    cases List.mem_singleton.mp h
    trivial

/-- **Leaves agree** if no two of them have the same topic. -/
theorem consistent_of_topics (h : c.topics.Nodup) (m : Memory α) : c.Consistent m := by
  have hpairs : c.leaves.Pairwise (Compatible m) := by
    refine (List.pairwise_filterMap.mp h).imp_of_mem fun {l l'} hl hl' hne label n n' hn hn' => ?_
    obtain ⟨t, ht, hlabel⟩ := topic_of_statistic (isLeaf_of_mem hl) hn
    obtain ⟨t', ht', hlabel'⟩ := topic_of_statistic (isLeaf_of_mem hl') hn'
    have hsame := Topic.eq_of_label (topic_name ht) (topic_name ht') hlabel hlabel'
    exact absurd hsame (hne t ht t' ht')
  exact fun l hl l' hl' => hpairs.forall_of_forall (fun l _ => Compatible.refl m l) hl hl'

/-- Starting afresh keeps the topics. -/
lemma topics_clear (now : ℤ) (c : Criterion α) : (c.clear now).topics = c.topics := by
  induction c with
  | both left right hleft hright | either left right hleft hright =>
    rw [clear, topics, topics, leaves, leaves, List.filterMap_append, List.filterMap_append]
    exact congrArg₂ _ hleft hright
  | _ => rfl

/-- An evaluation keeps the topics. -/
lemma topics_stop (o : Observation α) (c : Criterion α) : (c.stop o).1.topics = c.topics := by
  rw [← topics_clear 0, clear_stop, topics_clear]

/-- A leaf that has statistics has them all in the tree, if no two leaves have the same topic. -/
theorem retains_of_topics (h : c.info m = .ok entries) (htopics : c.topics.Nodup) : c.Retains m :=
  (retains_iff h).mpr (consistent_of_topics htopics m)

end Criterion

end PrimalDual
