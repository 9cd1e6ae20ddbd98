import Lending.Pool.Exposition
import Lending.Proofs.Text.ByteOrder
import Mathlib.Algebra.BigOperators.Group.List.Basic
import Mathlib.Algebra.Order.Ring.Nat
import Mathlib.Data.List.Basic

/-!
# What the exposition text says of its labels and figures

The labels of all samples are one block: the pool's name, then the tags by key. Sorting takes the
order away in which the tags came, so the text depends on the tag map only. Whether it tells the map
is another matter. Names, keys and values are written as they are, between quotes that nothing sets
apart from theirs; so a text tells its labels among those without a quote, and a line break in one
of them breaks the line of every sample.

* `Tags.lookup_ofList`, `Tags.perm_iff_lookup`: tags as a map; a later insertion replaces an earlier
  one, and what a map says of all keys is what it is.
* `exposition_of_map`: the text depends on the map only.
* `labels_inj`, `exposition_inj`: the text tells the block, and the block what is in it, where
  nothing in it has a quote.
* `exposition_tells`: what the text tells, with the count of its lines and the figures in it.

What is written is fixed by `Sample.lines`, three lines for each sample, and by `labels`. A reader
of the format would have quotes, backslashes and line breaks of a label's value escaped; here they
are not, and the last law says what is left of the text's meaning then.
-/

namespace Lending

namespace Tags

variable {tags tags' : Tags}

/-- No key occurs twice, as in a map. -/
def Distinct (tags : Tags) : Prop := (tags.map Prod.fst).Nodup

theorem Distinct.perm (h : tags.Perm tags') (hd : tags.Distinct) : tags'.Distinct :=
  (h.map Prod.fst).nodup_iff.mp hd

theorem Distinct.insert (hd : tags.Distinct) (key value : String) :
    (tags.insert key value).Distinct := by
  refine List.nodup_cons.mpr ⟨?_, (List.filter_sublist.map Prod.fst).nodup hd⟩
  rintro mem
  obtain ⟨tag, htag, rfl⟩ := List.mem_map.mp mem
  simp at htag

theorem lookup_insert (tags : Tags) (key value k : String) :
    (tags.insert key value).lookup k = if k = key then some value else tags.lookup k := by
  unfold insert
  by_cases h : k = key
  · simp [h]
  · have other : (k == key) = false := by simpa using h
    rw [List.lookup_cons, other, if_neg h]
    dsimp only
    induction tags with
    | nil => rfl
    | cons tag tags ih =>
      by_cases ht : tag.1 = key
      · have apart : (k == tag.1) = false := by simpa [ht] using h
        rw [List.filter_cons_of_neg (by simpa using ht), ih, List.lookup_cons, apart]
      · rw [List.filter_cons_of_pos (by simpa using ht), List.lookup_cons, List.lookup_cons, ih]

/-- What is inserted one after the other, from the last one on. -/
theorem foldl_insert (insertions : List (String × String)) :
    ∀ tags : Tags, tags.Distinct →
      (insertions.foldl (fun tags tag => tags.insert tag.1 tag.2) tags).Distinct ∧
      ∀ k, (insertions.foldl (fun tags tag => tags.insert tag.1 tag.2) tags).lookup k =
        (insertions.reverse.lookup k).or (tags.lookup k) := by
  induction insertions with
  | nil => exact fun tags hd => ⟨hd, fun k => rfl⟩
  | cons tag insertions ih =>
    obtain ⟨key, value⟩ := tag
    intro tags hd
    obtain ⟨distinct, lookup⟩ := ih _ (hd.insert key value)
    refine ⟨distinct, fun k => ?_⟩
    rw [List.foldl_cons, lookup, lookup_insert, List.reverse_cons, List.lookup_append,
      Option.or_assoc]
    congr 1
    by_cases h : k = key
    · simp [h]
    · have other : (k == key) = false := by simpa using h
      simp [h, List.lookup_cons, other]

theorem distinct_ofList (insertions : List (String × String)) : (ofList insertions).Distinct :=
  (foldl_insert insertions [] List.nodup_nil).1

/-- **A later insertion of a key replaces an earlier one.** -/
theorem lookup_ofList (insertions : List (String × String)) (k : String) :
    (ofList insertions).lookup k = insertions.reverse.lookup k := by
  rw [ofList, (foldl_insert insertions [] List.nodup_nil).2 k]
  exact Option.or_none

theorem mem_iff_lookup (hd : tags.Distinct) (tag : String × String) :
    tag ∈ tags ↔ tags.lookup tag.1 = some tag.2 := by
  rw [List.lookup_eq_some_iff]
  constructor
  · intro mem
    obtain ⟨before, after, rfl⟩ := List.append_of_mem mem
    refine ⟨before, after, rfl, fun other ho => ?_⟩
    have apart : (before.map Prod.fst ++ tag.1 :: after.map Prod.fst).Nodup := by
      simpa [Distinct] using hd
    rw [bne_iff_ne]
    exact ((List.nodup_append.mp apart).2.2 _ (List.mem_map_of_mem ho) _ List.mem_cons_self).symm
  · rintro ⟨before, after, rfl, -⟩
    exact List.mem_append_right _ List.mem_cons_self

theorem mem_map_fst {k : String} : k ∈ tags.map Prod.fst ↔ (tags.lookup k).isSome = true := by
  rw [List.lookup_isSome_iff, List.mem_map]
  constructor
  · rintro ⟨tag, mem, rfl⟩
    exact ⟨tag, mem, beq_self_eq_true _⟩
  · rintro ⟨tag, mem, same⟩
    exact ⟨tag, mem, (beq_iff_eq.mp same).symm⟩

/-- **Two lists of tags are one map exactly if they say the same of every key.** -/
theorem perm_iff_lookup (hd : tags.Distinct) (hd' : tags'.Distinct) :
    tags.Perm tags' ↔ ∀ k, tags.lookup k = tags'.lookup k := by
  have nodup : ∀ {tags : Tags}, tags.Distinct → tags.Nodup := fun hd => List.Nodup.of_map _ hd
  rw [List.perm_ext_iff_of_nodup (nodup hd) (nodup hd')]
  constructor
  · intro same k
    refine Option.ext fun value => ?_
    rw [← mem_iff_lookup hd (k, value), ← mem_iff_lookup hd' (k, value)]
    exact same (k, value)
  · intro same tag
    rw [mem_iff_lookup hd, mem_iff_lookup hd', same]

end Tags

namespace Pool.Metrics

variable {m : Metrics} {pool pool' : String} {tags tags' : Tags}

/-! ## The lines of the text -/

/-- The lines of a sample, as long as its labels do not break them. -/
def Sample.lines (labels : String) (s : Sample) : List String :=
  ["# HELP " ++ s.name ++ " " ++ s.help,
    "# TYPE " ++ s.name ++ " " ++ s.kind.name,
    s.name ++ "\x7b" ++ labels ++ "\x7d " ++ s.value]

theorem Sample.text_eq (labels : String) (s : Sample) :
    s.text labels = String.join ((s.lines labels).map (· ++ "\n")) := by
  unfold Sample.text Sample.lines
  rw [← String.toList_inj, String.toList_join]
  simp only [String.toList_append, List.map_cons, List.flatMap_cons, List.map_nil,
    List.flatMap_nil, List.append_nil, List.append_assoc]

/-- **The text is the lines of the samples**, each ended by a line break. -/
theorem exposition_lines (m : Metrics) (pool : String) (tags : Tags) : exposition m pool tags =
    String.join ((m.samples.flatMap (Sample.lines (labels pool tags))).map (· ++ "\n")) := by
  have lines : ∀ samples : List Sample, String.join (samples.map (Sample.text (labels pool tags))) =
      String.join ((samples.flatMap (Sample.lines (labels pool tags))).map (· ++ "\n")) := by
    intro samples
    rw [← String.toList_inj, String.toList_join, String.toList_join]
    induction samples with
    | nil => rfl
    | cons s samples ih =>
      rw [List.map_cons, List.flatMap_cons, ih, List.flatMap_cons, List.map_append,
        List.flatMap_append, Sample.text_eq, String.toList_join]
  exact lines m.samples

/-! ## The order of the tags -/

/-- The tags in the order of the text. -/
def sorted (tags : Tags) : Tags := Text.sortOn Prod.fst tags

theorem labels_of_perm (h : tags.Perm tags') (hd : tags.Distinct) (pool : String) :
    labels pool tags = labels pool tags' := by
  unfold labels
  rw [Text.sortOn_eq_of_perm h hd]

/-- **The text depends on the map only.** Take two lists of insertions that leave every key with the
same value, and the maps that they make, in whatever order these come. The texts are the same. After
the pool's label come the keys inserted, each once and in strictly ascending order of their bytes,
with the values inserted last, a label being the key, an equals sign and the value between quotes.
Of the three lines of each of the twelve samples the last one carries this block, and the text has
no other lines. -/
theorem exposition_of_map (m : Metrics) (pool : String)
    {insertions insertions' : List (String × String)}
    (same : ∀ key, insertions.reverse.lookup key = insertions'.reverse.lookup key)
    (ht : tags.Perm (Tags.ofList insertions)) (ht' : tags'.Perm (Tags.ofList insertions')) :
    exposition m pool tags = exposition m pool tags' ∧
    ∃ inOrder : Tags,
      inOrder.Pairwise (fun tag next => Text.bytes tag.1 < Text.bytes next.1) ∧
      (∀ key, inOrder.lookup key = insertions.reverse.lookup key) ∧
      (∀ key, (inOrder.map Prod.fst).count key =
        if (insertions.reverse.lookup key).isSome then 1 else 0) ∧
      ∃ block, block = ",".intercalate
          ((("pool", pool) :: inOrder).map fun tag => tag.1 ++ "=\"" ++ tag.2 ++ "\"") ∧
        m.samples.length = 12 ∧
        exposition m pool tags = String.join ((m.samples.flatMap fun s =>
          ["# HELP " ++ s.name ++ " " ++ s.help,
            "# TYPE " ++ s.name ++ " " ++ s.kind.name,
            s.name ++ "\x7b" ++ block ++ "\x7d " ++ s.value]).map (· ++ "\n")) := by
  have distinct : tags.Distinct := (Tags.distinct_ofList insertions).perm ht.symm
  have distinct' : tags'.Distinct := (Tags.distinct_ofList insertions').perm ht'.symm
  have sort : (sorted tags).Perm tags := Text.sortOn_perm ..
  have lookup : ∀ key, (sorted tags).lookup key = insertions.reverse.lookup key := by
    intro key
    rw [(Tags.perm_iff_lookup (distinct.perm sort.symm) (Tags.distinct_ofList _)).mp
      (sort.trans ht), Tags.lookup_ofList]
  refine ⟨?_, sorted tags, Text.pairwise_sortOn distinct, lookup, fun key => ?_, _, rfl, rfl,
    exposition_lines m pool tags⟩
  · have one : tags.Perm tags' := by
      refine (Tags.perm_iff_lookup distinct distinct').mpr fun key => ?_
      rw [(Tags.perm_iff_lookup distinct (Tags.distinct_ofList _)).mp ht,
        (Tags.perm_iff_lookup distinct' (Tags.distinct_ofList _)).mp ht', Tags.lookup_ofList,
        Tags.lookup_ofList, same]
    unfold exposition
    rw [labels_of_perm one distinct]
  · have has : key ∈ (sorted tags).map Prod.fst ↔
        (insertions.reverse.lookup key).isSome = true := by
      rw [← lookup, Tags.mem_map_fst]
    rw [List.Nodup.count (distinct.perm sort.symm)]
    exact if_congr has rfl rfl

theorem exposition_of_map_replaced :
    ((∀ key, [("zone", "a"), ("app", "x"), ("zone", "b")].reverse.lookup key =
        [("app", "x"), ("zone", "b")].reverse.lookup key) ∧
      [("app", "x"), ("zone", "b")].Perm
        (Tags.ofList [("zone", "a"), ("app", "x"), ("zone", "b")]) ∧
      [("zone", "b"), ("app", "x")].Perm (Tags.ofList [("app", "x"), ("zone", "b")])) ∧
    exposition (.of {} 2 1 0 4) "ftp" [("app", "x"), ("zone", "b")] =
      exposition (.of {} 2 1 0 4) "ftp" [("zone", "b"), ("app", "x")] := by
  have same : ∀ key, [("zone", "a"), ("app", "x"), ("zone", "b")].reverse.lookup key =
      [("app", "x"), ("zone", "b")].reverse.lookup key := by
    intro key
    by_cases zone : key = "zone"
    · rw [zone]
      rfl
    · have other : (key == "zone") = false := by simpa using zone
      simp [List.lookup_cons, other]
  have first : [("app", "x"), ("zone", "b")].Perm
      (Tags.ofList [("zone", "a"), ("app", "x"), ("zone", "b")]) := by decide
  have second : [("zone", "b"), ("app", "x")].Perm
      (Tags.ofList [("app", "x"), ("zone", "b")]) := by decide
  exact ⟨⟨same, first, second⟩, (exposition_of_map (.of {} 2 1 0 4) "ftp" same first second).1⟩

/-! ## Lines -/

/-- How many line breaks a text has. -/
def lineBreaks (s : String) : Nat := s.toList.count '\n'

@[simp] theorem lineBreaks_append (s t : String) :
    lineBreaks (s ++ t) = lineBreaks s + lineBreaks t := by
  unfold lineBreaks
  rw [String.toList_append, List.count_append]

theorem lineBreaks_join (texts : List String) :
    lineBreaks (String.join texts) = (texts.map lineBreaks).sum := by
  unfold lineBreaks
  rw [String.toList_join, List.count_flatMap]
  rfl

theorem lineBreaks_eq_zero {s : String} : lineBreaks s = 0 ↔ '\n' ∉ s.toList :=
  List.count_eq_zero

/-- Figures are written with digits. -/
theorem not_mem_toDigits (n : Nat) : '\n' ∉ Nat.toDigits 10 n := fun mem => by
  cases Nat.isDigit_of_mem_toDigits (by decide) (by decide) mem

@[simp] theorem lineBreaks_toString (n : Nat) : lineBreaks (toString n) = 0 := by
  rw [lineBreaks_eq_zero, Nat.toString_eq_repr, Nat.toList_repr]
  exact not_mem_toDigits n

theorem lineBreaks_positional (n places : Nat) : lineBreaks (Binary64.positional n places) = 0 := by
  rw [lineBreaks_eq_zero]
  unfold Binary64.positional
  dsimp only
  generalize hd : List.replicate _ '0' ++ Nat.toDigits 10 n = digits
  have none : '\n' ∉ digits := by
    rw [← hd, List.mem_append]
    rintro (mem | mem)
    · cases List.eq_of_mem_replicate mem
    · exact not_mem_toDigits n mem
  rw [String.toList_ofList]
  split
  · exact fun mem => none (List.mem_of_mem_take mem)
  · intro mem
    rcases List.mem_append.mp mem with mem | mem
    · exact none (List.mem_of_mem_take mem)
    · rcases List.mem_cons.mp mem with mem | mem
      · cases mem
      · exact none (List.mem_of_mem_drop mem)

@[simp] theorem lineBreaks_fixed (x : Binary64) (places : Nat) :
    lineBreaks (x.fixed places) = 0 := by
  have lead : lineBreaks (if x.isNegative then "-" else "") = 0 := by split <;> rfl
  unfold Binary64.fixed
  split
  · rfl
  · dsimp only
    split
    · rw [lineBreaks_append, lead]
      rfl
    · rw [lineBreaks_append, lead, lineBreaks_positional]

/-- What is fixed of a sample stays in its line. -/
structure Sample.InLine (s : Sample) : Prop where
  name  : lineBreaks s.name = 0
  help  : lineBreaks s.help = 0
  value : lineBreaks s.value = 0

theorem inLine_samples (m : Metrics) : ∀ s ∈ m.samples, s.InLine := by
  have count : ∀ {name help : String} {kind : SampleKind} {n : Nat}, lineBreaks name = 0 →
      lineBreaks help = 0 → Sample.InLine ⟨name, help, kind, toString n⟩ :=
    fun name help => ⟨name, help, lineBreaks_toString _⟩
  have share : ∀ {name help : String}, lineBreaks name = 0 → lineBreaks help = 0 →
      Sample.InLine ⟨name, help, .gauge, m.utilizationText⟩ :=
    fun name help => ⟨name, help, lineBreaks_fixed _ _⟩
  unfold samples
  simp only [List.forall_mem_cons, List.not_mem_nil, false_implies, implies_true, and_true]
  refine ⟨count ?_ ?_, count ?_ ?_, count ?_ ?_, count ?_ ?_, share ?_ ?_, count ?_ ?_, count ?_ ?_,
    count ?_ ?_, count ?_ ?_, count ?_ ?_, count ?_ ?_, count ?_ ?_⟩
  all_goals decide +kernel

theorem lineBreaks_text {s : Sample} (hs : s.InLine) (labels : String) :
    lineBreaks (s.text labels) = 3 + lineBreaks labels := by
  have kind : lineBreaks s.kind.name = 0 := by cases s.kind <;> rfl
  have fixed : lineBreaks "# HELP " = 0 ∧ lineBreaks " " = 0 ∧ lineBreaks "\n" = 1 ∧
      lineBreaks "# TYPE " = 0 ∧ lineBreaks "\x7b" = 0 ∧ lineBreaks "\x7d " = 0 := by decide
  obtain ⟨lead, blank, line, type, opening, closing⟩ := fixed
  unfold Sample.text
  simp only [lineBreaks_append, hs.name, hs.help, hs.value, kind, lead, blank, line, type, opening,
    closing]
  omega

theorem lineBreaks_texts (labels : String) (samples : List Sample) (hs : ∀ s ∈ samples, s.InLine) :
    lineBreaks (String.join (samples.map (Sample.text labels))) =
      samples.length * (3 + lineBreaks labels) := by
  rw [lineBreaks_join]
  induction samples with
  | nil => exact (Nat.zero_mul _).symm
  | cons s samples ih =>
    obtain ⟨hs, rest⟩ := List.forall_mem_cons.mp hs
    rw [List.map_cons, List.map_cons, List.sum_cons, lineBreaks_text hs, ih rest, List.length_cons,
      Nat.succ_mul, Nat.add_comm]

/-- **Twelve samples of three lines each**, if no label breaks them. -/
theorem lineBreaks_exposition (m : Metrics) (pool : String) (tags : Tags) :
    lineBreaks (exposition m pool tags) = 36 + 12 * lineBreaks (labels pool tags) := by
  have twelve : m.samples.length = 12 := rfl
  have count := lineBreaks_texts (labels pool tags) m.samples (inLine_samples m)
  rw [twelve] at count
  unfold exposition
  omega

/-! ## The block of labels -/

/-- The characters of the labels of tags, each after a comma. -/
def tagged : Tags → List Char
  | [] => []
  | (key, value) :: tags =>
    (',' :: (key.toList ++ ['='])) ++ '"' :: (value.toList ++ '"' :: tagged tags)

theorem toList_labels (pool : String) (tags : Tags) : (labels pool tags).toList =
    "pool=".toList ++ '"' :: (pool.toList ++ '"' :: tagged (sorted tags)) := by
  have joined : ∀ (tags : Tags) (first : String),
      (",".intercalate (first :: tags.map fun tag => label tag.1 tag.2)).toList =
        first.toList ++ tagged tags := by
    intro tags
    induction tags with
    | nil => simp [tagged]
    | cons tag tags ih =>
      intro first
      rw [List.map_cons, String.intercalate_cons_cons, String.toList_append, ih]
      simp [label, tagged]
  unfold labels
  rw [joined]
  simp [label, sorted]

theorem count_tagged (tags : Tags) : (tagged tags).count '\n' =
    (tags.map fun tag => lineBreaks tag.1 + lineBreaks tag.2).sum := by
  induction tags with
  | nil => rfl
  | cons tag tags ih =>
    have plain : ',' ≠ '\n' ∧ '=' ≠ '\n' ∧ '"' ≠ '\n' := by decide
    simp only [tagged, List.count_append, List.count_cons_of_ne plain.1, List.count_cons_of_ne
      plain.2.1, List.count_cons_of_ne plain.2.2, List.count_nil, ih, List.map_cons, List.sum_cons,
      lineBreaks]
    omega

/-- The labels break their line as often as the names, keys and values in them do. -/
theorem lineBreaks_labels (pool : String) (tags : Tags) : lineBreaks (labels pool tags) =
    lineBreaks pool + (tags.map fun tag => lineBreaks tag.1 + lineBreaks tag.2).sum := by
  have inOrder := ((Text.sortOn_perm Prod.fst tags).map fun tag =>
    lineBreaks tag.1 + lineBreaks tag.2).sum_eq
  have lead : "pool=".toList.count '\n' = 0 := by decide
  have quote : '"' ≠ '\n' := by decide
  rw [← inOrder]
  unfold lineBreaks
  rw [toList_labels, List.count_append, lead, List.count_cons_of_ne quote, List.count_append,
    List.count_cons_of_ne quote, count_tagged, Nat.zero_add]
  rfl

/-- Where an end mark first stands, two texts with the same characters part in the same way. -/
theorem part_of_eq {mark : Char} {xs ys : List Char} (hx : mark ∉ xs) (hy : mark ∉ ys)
    {xs' ys' : List Char} (h : xs ++ mark :: xs' = ys ++ mark :: ys') : xs = ys ∧ xs' = ys' := by
  induction xs generalizing ys with
  | nil =>
    cases ys with
    | nil => exact ⟨rfl, (List.cons.inj h).2⟩
    | cons y ys => exact absurd ((List.cons.inj h).1 ▸ List.mem_cons_self) hy
  | cons x xs ih =>
    cases ys with
    | nil => exact absurd ((List.cons.inj h).1 ▸ List.mem_cons_self) hx
    | cons y ys =>
      obtain ⟨rfl, rest⟩ := List.cons.inj h
      obtain ⟨rfl, rfl⟩ :=
        ih (fun m => hx (List.mem_cons_of_mem _ m)) (fun m => hy (List.mem_cons_of_mem _ m)) rest
      exact ⟨rfl, rfl⟩

/-- A text without a quote. -/
def Unquoted (s : String) : Prop := '"' ∉ s.toList

/-- **Nothing in the labels has a quote**: not the pool's name, no key and no value. -/
structure Plain (pool : String) (tags : Tags) : Prop where
  pool : Unquoted pool
  tags : ∀ tag ∈ tags, Unquoted tag.1 ∧ Unquoted tag.2

theorem tagged_inj (ht : ∀ tag ∈ tags, Unquoted tag.1 ∧ Unquoted tag.2)
    (ht' : ∀ tag ∈ tags', Unquoted tag.1 ∧ Unquoted tag.2) (h : tagged tags = tagged tags') :
    tags = tags' := by
  have lead : ∀ {key : String}, Unquoted key → '"' ∉ ',' :: (key.toList ++ ['=']) := by
    intro key plain mem
    simp only [List.mem_cons, List.mem_append, List.not_mem_nil, or_false] at mem
    rcases mem with quote | mem | quote
    · exact absurd quote (by decide)
    · exact plain mem
    · exact absurd quote (by decide)
  induction tags generalizing tags' with
  | nil =>
    cases tags' with
    | nil => rfl
    | cons tag' tags' => cases h
  | cons tag tags ih =>
    cases tags' with
    | nil => cases h
    | cons tag' tags' =>
      obtain ⟨key, value⟩ := tag
      obtain ⟨key', value'⟩ := tag'
      obtain ⟨⟨hk, hv⟩, rest⟩ := List.forall_mem_cons.mp ht
      obtain ⟨⟨hk', hv'⟩, rest'⟩ := List.forall_mem_cons.mp ht'
      -- first the key up to the opening quote, then the value up to the closing one
      obtain ⟨keys, after⟩ := part_of_eq (lead hk) (lead hk') h
      obtain ⟨values, after⟩ := part_of_eq hv hv' after
      obtain rfl := ih rest rest' after
      obtain rfl : key = key' :=
        String.toList_inj.mp (List.append_cancel_right (List.cons.inj keys).2)
      obtain rfl : value = value' := String.toList_inj.mp values
      rfl

/-- **The block tells what is in it**, where nothing in it has a quote. -/
theorem labels_inj (hp : Plain pool tags) (hp' : Plain pool' tags') (hd : tags.Distinct) :
    labels pool tags = labels pool' tags' ↔ pool = pool' ∧ tags.Perm tags' := by
  have sort : ∀ tags : Tags, (sorted tags).Perm tags := fun tags => Text.sortOn_perm ..
  constructor
  · intro h
    rw [← String.toList_inj, toList_labels, toList_labels] at h
    obtain ⟨-, after⟩ := part_of_eq (by decide) (by decide) h
    obtain ⟨names, after⟩ := part_of_eq hp.pool hp'.pool after
    have one : sorted tags = sorted tags' := tagged_inj
      (fun tag mem => hp.tags tag ((sort _).mem_iff.mp mem))
      (fun tag mem => hp'.tags tag ((sort _).mem_iff.mp mem)) after
    exact ⟨String.toList_inj.mp names, (sort tags).symm.trans (one ▸ sort tags')⟩
  · rintro ⟨rfl, perm⟩
    exact labels_of_perm perm hd _

/-! ## The whole text -/

/-- The block stands between the same characters, whatever is in it. -/
theorem exists_around (s : Sample) : ∃ before after : List Char,
    ∀ labels, (s.text labels).toList = before ++ (labels.toList ++ after) := by
  obtain ⟨before, hb⟩ : ∃ before, before = "# HELP " ++ s.name ++ " " ++ s.help ++ "\n"
    ++ "# TYPE " ++ s.name ++ " " ++ s.kind.name ++ "\n" ++ s.name ++ "\x7b" := ⟨_, rfl⟩
  obtain ⟨after, ha⟩ : ∃ after, after = "\x7d " ++ s.value ++ "\n" := ⟨_, rfl⟩
  refine ⟨before.toList, after.toList, fun labels => ?_⟩
  have parts : s.text labels = before ++ (labels ++ after) := by
    rw [hb, ha]
    unfold Sample.text
    simp only [String.append_assoc]
  rw [parts, String.toList_append, String.toList_append]

/-- **Samples with a block tell the block.** Equal texts are equally long, so the blocks are; and
then they stand at the same place of the first sample. -/
theorem texts_inj (first : Sample) (rest : List Sample) {block block' : String}
    (h : String.join ((first :: rest).map (Sample.text block)) =
      String.join ((first :: rest).map (Sample.text block'))) : block = block' := by
  have size : ∀ samples : List Sample, ∃ fixed, ∀ block : String,
      (String.join (samples.map (Sample.text block))).toList.length =
        fixed + samples.length * block.toList.length := by
    intro samples
    induction samples with
    | nil => exact ⟨0, fun block => by simp⟩
    | cons s samples ih =>
      obtain ⟨fixed, ih⟩ := ih
      obtain ⟨before, after, around⟩ := exists_around s
      refine ⟨before.length + after.length + fixed, fun block => ?_⟩
      specialize ih block
      rw [String.toList_join] at ih ⊢
      rw [List.map_cons, List.flatMap_cons, List.length_append, ih, around, List.length_append,
        List.length_append, List.length_cons, Nat.succ_mul]
      omega
  obtain ⟨fixed, size⟩ := size (first :: rest)
  have length : block.toList.length = block'.toList.length := by
    have total := congrArg (fun text => text.toList.length) h
    rw [size, size] at total
    exact Nat.eq_of_mul_eq_mul_left (Nat.succ_pos rest.length) (Nat.add_left_cancel total)
  obtain ⟨before, after, around⟩ := exists_around first
  rw [← String.toList_inj, String.toList_join, String.toList_join, List.map_cons, List.map_cons,
    List.flatMap_cons, List.flatMap_cons, around, around, List.append_assoc, List.append_assoc,
    List.append_assoc, List.append_assoc, List.append_cancel_left_eq] at h
  exact String.toList_inj.mp (List.append_inj h length).1

/-- **The text tells the block.** -/
theorem exposition_inj (m : Metrics) : exposition m pool tags = exposition m pool' tags' ↔
    labels pool tags = labels pool' tags' := by
  constructor
  · obtain ⟨first, rest, hs⟩ : ∃ first rest, m.samples = first :: rest := ⟨_, _, rfl⟩
    unfold exposition
    rw [hs]
    exact texts_inj first rest
  · intro h
    unfold exposition
    rw [h]

/-- Which figure of the exported map each sample shows. -/
def figures : List (String × String) :=
  [ ("sessionpool_resources_active", "active_resources"),
    ("sessionpool_resources_idle", "idle_resources"),
    ("sessionpool_callers_waiting", "waiting_callers"),
    ("sessionpool_capacity", "max_capacity"),
    ("sessionpool_utilization", "utilization"),
    ("sessionpool_acquired_total", "total_acquired"),
    ("sessionpool_released_total", "total_released"),
    ("sessionpool_created_total", "total_created"),
    ("sessionpool_evicted_total", "total_evicted"),
    ("sessionpool_stale_evictions_total", "stale_evictions"),
    ("sessionpool_discarded_total", "total_discarded"),
    ("sessionpool_exhausted_total", "exhausted_events") ]

theorem samples_figures (m : Metrics) : m.samples.map (fun s => (s.name, some s.value)) =
    figures.map fun figure => (figure.1, m.entries.lookup figure.2) := rfl

theorem figures_perm (m : Metrics) : (figures.map Prod.snd).Perm (m.entries.map Prod.fst) := by
  have names : m.entries.map Prod.fst = ["total_acquired", "total_released", "total_created",
    "total_evicted", "stale_evictions", "total_discarded", "exhausted_events", "active_resources",
    "idle_resources", "waiting_callers", "utilization", "max_capacity"] := rfl
  rw [names]
  decide

/-- A tag can be written into the pool's name: its closing quote and the comma come from there. -/
theorem labels_clash (pool key value : String) :
    labels (pool ++ "\"," ++ key ++ "=\"" ++ value) [] = labels pool [(key, value)] := by
  rw [← String.toList_inj, toList_labels, toList_labels]
  have none : sorted [] = [] := List.mergeSort_nil
  have one : ∀ tag : String × String, sorted [tag] = [tag] := List.mergeSort_singleton
  rw [one, none]
  simp only [String.toList_append, tagged, List.append_assoc, List.cons_append, List.nil_append]
  rfl

/-- **What the text tells.** Two calls on one snapshot give one text exactly if they give one block
of labels, and where no name, key or value has a quote that means one pool name and one tag map; but
a tag written into the pool's name, quotes and all, gives the block of the tag. Twelve samples of
three lines each make the text, so it has 36 line breaks, and twelve more for each one in the name,
a key or a value. The value of a sample is the exported text of its figure, and every figure has
one sample. -/
theorem exposition_tells (m : Metrics) (pool pool' : String) (hd : tags.Distinct)
    (hd' : tags'.Distinct) :
    (exposition m pool tags = exposition m pool' tags' ↔ labels pool tags = labels pool' tags') ∧
    (Plain pool tags → Plain pool' tags' → (exposition m pool tags = exposition m pool' tags' ↔
      pool = pool' ∧ ∀ key, tags.lookup key = tags'.lookup key)) ∧
    (∀ key value, exposition m (pool ++ "\"," ++ key ++ "=\"" ++ value) [] =
      exposition m pool [(key, value)]) ∧
    (∃ lines : List String, lines = m.samples.flatMap (Sample.lines (labels pool tags)) ∧
      lines.length = 36 ∧ exposition m pool tags = String.join (lines.map (· ++ "\n"))) ∧
    lineBreaks (exposition m pool tags) = 36 + 12 * (lineBreaks pool +
      (tags.map fun tag => lineBreaks tag.1 + lineBreaks tag.2).sum) ∧
    m.samples.map (fun s => (s.name, some s.value)) =
      figures.map (fun figure => (figure.1, m.entries.lookup figure.2)) ∧
    (figures.map Prod.snd).Perm (m.entries.map Prod.fst) := by
  refine ⟨exposition_inj m, fun hp hp' => ?_, fun key value => ?_, ⟨_, rfl, rfl, ?_⟩, ?_,
    samples_figures m, figures_perm m⟩
  · rw [exposition_inj, labels_inj hp hp' hd, Tags.perm_iff_lookup hd hd']
  · exact (exposition_inj m).mpr (labels_clash pool key value)
  · exact exposition_lines m pool tags
  · rw [lineBreaks_exposition, lineBreaks_labels]

theorem exposition_tells_aBreak :
    (Tags.Distinct [("y", "v\nw")] ∧ Tags.Distinct [("x", "b")]) ∧
    exposition (.of {} 2 1 0 4) "a" [("y", "v\nw")] ≠ exposition (.of {} 2 1 0 4) "a" [("x", "b")] ∧
    exposition (.of {} 2 1 0 4) "a\",x=\"b" [] = exposition (.of {} 2 1 0 4) "a" [("x", "b")] ∧
    lineBreaks (exposition (.of {} 2 1 0 4) "a" [("y", "v\nw")]) = 48 := by
  have distinct : Tags.Distinct [("y", "v\nw")] ∧ Tags.Distinct [("x", "b")] := by
    unfold Tags.Distinct
    decide
  have plain : Plain "a" [("y", "v\nw")] ∧ Plain "a" [("x", "b")] := by
    constructor <;> constructor <;> unfold Unquoted <;> decide
  obtain ⟨-, apart, clash, -, breaks, -, -⟩ :=
    exposition_tells (.of {} 2 1 0 4) "a" "a" distinct.1 distinct.2
  refine ⟨distinct, fun same => ?_, clash "x" "b", breaks⟩
  have key := ((apart plain.1 plain.2).mp same).2 "x"
  cases key

end Pool.Metrics

end Lending
