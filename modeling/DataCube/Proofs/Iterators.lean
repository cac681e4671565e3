import DataCube.Proofs.Grouping
import DataCube.Proofs.RowStreams

/-!
# Pulling rows one at a time

A stream is pulled through iterators that are wrapped around one another.  A dataset that holds its
rows hands them out in order.  A derived one has an iterator that is not started before the first
pull and is given up after the first error; in between there is one that maps or filters what the
iterator of the operand yields, and that goes on after errors, or the rows that were computed of all
rows of the operand.

* `RowIterator`: an iterator between two pulls.
* `RowIterator.Pull`: what one pull answers, and the iterator after it.  `RowIterator.Pulls` is any
  number of pulls in a row.
* `RowIterator.items`: what an iterator yields until it is over.  A pull takes the first of it
  (`Pull.items_eq`), there always is a pull, and what is over stays over (`yields_items`).
* `DataSet.Opens`: the iterator that a stream of a dataset starts with.  It yields what the stream
  of the dataset does (`DataSet.Opens.items_eq`), and every dataset that an expression amounts to
  has one (`DataSet.invariant_opens`).
-/

namespace DataCube

/-- An iterator over rows, as it is between two pulls. -/
inductive RowIterator where
  /-- The rows that are left of those a dataset holds. -/
  | rows (rest : List Row)
  /-- Maps the rows of another iterator, and hands on its errors. -/
  | mapped (f : Row → Except EvalError Row) (source : RowIterator)
  /-- Leaves out rows of another iterator, and hands on its errors. -/
  | filtered (p : Row → Except EvalError Bool) (source : RowIterator)
  /-- Not started: the first pull goes to the given iterator. -/
  | opening (source : RowIterator)
  /-- Not started: the first pull gathers all rows of the operand, behind those there are already,
  and computes the rows of them. -/
  | gathering (gathered : List Row) (source : RowIterator)
      (compute : List Row → Except EvalError (List Row))
  /-- Started. -/
  | running (source : RowIterator)
  /-- There was an error instead of a start. -/
  | refused
  /-- Hands on what another iterator yields, until that is over or yields an error. -/
  | untilError (source : RowIterator)
  /-- Given up. -/
  | ended

/-- Rows that are there as a whole are all there is. -/
theorem RowStream.items_ofResult_ok (rows : List Row) :
    (ofResult (.ok rows)).items = rows.map .ok := by
  simp [ofResult, items]

namespace RowIterator

/-! ## Pulls -/

/-- One pull, with what it answers; `none` says that the stream is over. -/
inductive Pull : RowIterator → Option (Except EvalError Row) → RowIterator → Prop where
  | row {r : Row} {rest : List Row} : Pull (.rows (r :: rest)) (some (.ok r)) (.rows rest)
  | noRow : Pull (.rows []) none (.rows [])
  | map {f : Row → Except EvalError Row} {source next : RowIterator}
      {answer : Option (Except EvalError Row)} :
      Pull source answer next →
      Pull (.mapped f source) (answer.map fun item => item >>= f) (.mapped f next)
  | keep {p : Row → Except EvalError Bool} {source next : RowIterator} {r : Row} :
      Pull source (some (.ok r)) next → p r = .ok true →
      Pull (.filtered p source) (some (.ok r)) (.filtered p next)
  | skip {p : Row → Except EvalError Bool} {source next last : RowIterator} {r : Row}
      {answer : Option (Except EvalError Row)} :
      Pull source (some (.ok r)) next → p r = .ok false →
      Pull (.filtered p next) answer last → Pull (.filtered p source) answer last
  | undecided {p : Row → Except EvalError Bool} {source next : RowIterator} {r : Row}
      {e : EvalError} :
      Pull source (some (.ok r)) next → p r = .error e →
      Pull (.filtered p source) (some (.error e)) (.filtered p next)
  | filterError {p : Row → Except EvalError Bool} {source next : RowIterator} {e : EvalError} :
      Pull source (some (.error e)) next →
      Pull (.filtered p source) (some (.error e)) (.filtered p next)
  | filterOver {p : Row → Except EvalError Bool} {source next : RowIterator} :
      Pull source none next → Pull (.filtered p source) none (.filtered p next)
  | start {source next : RowIterator} {answer : Option (Except EvalError Row)} :
      Pull source answer next → Pull (.opening source) answer (.running next)
  | gather {gathered : List Row} {source next last : RowIterator} {r : Row}
      {compute : List Row → Except EvalError (List Row)} {answer : Option (Except EvalError Row)} :
      Pull source (some (.ok r)) next →
      Pull (.gathering (gathered ++ [r]) next compute) answer last →
      Pull (.gathering gathered source compute) answer last
  | compute {gathered made : List Row} {source next last : RowIterator}
      {compute : List Row → Except EvalError (List Row)} {answer : Option (Except EvalError Row)} :
      Pull source none next → compute gathered = .ok made → Pull (.rows made) answer last →
      Pull (.gathering gathered source compute) answer (.running last)
  | refuse {gathered : List Row} {source next : RowIterator}
      {compute : List Row → Except EvalError (List Row)} {e : EvalError} :
      Pull source none next → compute gathered = .error e →
      Pull (.gathering gathered source compute) (some (.error e)) .refused
  | gatherError {gathered : List Row} {source next : RowIterator}
      {compute : List Row → Except EvalError (List Row)} {e : EvalError} :
      Pull source (some (.error e)) next →
      Pull (.gathering gathered source compute) (some (.error e)) .refused
  | run {source next : RowIterator} {answer : Option (Except EvalError Row)} :
      Pull source answer next → Pull (.running source) answer (.running next)
  | refused : Pull .refused none .refused
  | hand {source next : RowIterator} {r : Row} :
      Pull source (some (.ok r)) next →
      Pull (.untilError source) (some (.ok r)) (.untilError next)
  | stop {source next : RowIterator} {e : EvalError} :
      Pull source (some (.error e)) next → Pull (.untilError source) (some (.error e)) .ended
  | finish {source next : RowIterator} :
      Pull source none next → Pull (.untilError source) none .ended
  | ended : Pull .ended none .ended

/-- Any number of pulls in a row, with what each of them answers. -/
inductive Pulls : RowIterator → List (Option (Except EvalError Row)) → RowIterator → Prop where
  | done {i : RowIterator} : Pulls i [] i
  | pull {i j k : RowIterator} {answer : Option (Except EvalError Row)}
      {answers : List (Option (Except EvalError Row))} :
      Pull i answer j → Pulls j answers k → Pulls i (answer :: answers) k

/-! ## What an iterator yields -/

variable {i j : RowIterator} {r : Row} {e : EvalError} {f : Row → Except EvalError Row}
  {p : Row → Except EvalError Bool}
  {gathered : List Row} {compute : List Row → Except EvalError (List Row)}
  {answer : Option (Except EvalError Row)} {answers : List (Option (Except EvalError Row))}

/-- The items up to the first error. -/
def upToError : List (Except EvalError Row) → List (Except EvalError Row)
  | [] => []
  | .ok r :: items => .ok r :: upToError items
  | .error e :: _ => [.error e]

/-- What a filter makes of one item. -/
def filterItem (p : Row → Except EvalError Bool) :
    Except EvalError Row → Option (Except EvalError Row)
  | .error e => some (.error e)
  | .ok r =>
    match p r with
    | .ok true => some (.ok r)
    | .ok false => none
    | .error e => some (.error e)

/-- Everything an iterator yields until it is over. -/
def items : RowIterator → List (Except EvalError Row)
  | .rows rest => rest.map .ok
  | .mapped f source => source.items.map fun item => item >>= f
  | .filtered p source => source.items.filterMap (filterItem p)
  | .opening source => source.items
  | .gathering gathered source compute =>
    (RowStream.ofResult (source.items.mapM id >>= fun rows => compute (gathered ++ rows))).items
  | .running source => source.items
  | .refused => []
  | .untilError source => upToError source.items
  | .ended => []

theorem mapM_nil {f : List Row → Except EvalError (List Row)} :
    (([] : List (Except EvalError Row)).mapM id >>= f) = f [] := rfl

theorem mapM_ok_cons {items : List (Except EvalError Row)}
    {f : List Row → Except EvalError (List Row)} :
    ((.ok r :: items).mapM id >>= f) = items.mapM id >>= fun rows => f (r :: rows) := by
  rw [List.mapM_cons, id_eq, ok_bind, bind_assoc]
  rfl

/-- A pull answers with the first item, and leaves the others. -/
theorem Pull.items_eq (h : Pull i answer j) :
    i.items = answer.toList ++ j.items ∧ (answer = none → i.items = []) := by
  induction h with
  | row => exact ⟨rfl, nofun⟩
  | noRow => exact ⟨rfl, fun _ => rfl⟩
  | map _ ih =>
    refine ⟨?_, fun hnone => ?_⟩
    · rw [items, ih.1, List.map_append, ← Option.toList_map]
      rfl
    · rw [items, ih.2 (Option.map_eq_none_iff.1 hnone), List.map_nil]
  | keep _ hp ih =>
    refine ⟨?_, nofun⟩
    rw [items, ih.1, Option.toList_some, List.singleton_append,
      List.filterMap_cons_some (by rw [filterItem, hp])]
    rfl
  | skip _ hp _ ih ihrest =>
    rw [items, ih.1, Option.toList_some, List.singleton_append,
      List.filterMap_cons_none (by rw [filterItem, hp])]
    exact ihrest
  | undecided _ hp ih =>
    refine ⟨?_, nofun⟩
    rw [items, ih.1, Option.toList_some, List.singleton_append,
      List.filterMap_cons_some (by rw [filterItem, hp])]
    rfl
  | filterError _ ih =>
    refine ⟨?_, nofun⟩
    rw [items, ih.1, Option.toList_some, List.singleton_append,
      List.filterMap_cons_some (by rw [filterItem])]
    rfl
  | filterOver _ ih =>
    refine ⟨?_, fun _ => ?_⟩
    · rw [items, ih.1]
      rfl
    · rw [items, ih.2 rfl, List.filterMap_nil]
  | start _ ih => exact ih
  | gather _ _ ih ihrest =>
    rw [items, ih.1, Option.toList_some, List.singleton_append, mapM_ok_cons]
    simpa only [items, List.append_assoc, List.singleton_append] using ihrest
  | compute _ hmade _ ih ihrest =>
    rw [items, ih.2 rfl, mapM_nil, List.append_nil, hmade, RowStream.items_ofResult_ok]
    exact ihrest
  | refuse _ hmade ih =>
    refine ⟨?_, nofun⟩
    rw [items, ih.2 rfl, mapM_nil, List.append_nil, hmade]
    rfl
  | gatherError _ ih =>
    refine ⟨?_, nofun⟩
    rw [items, ih.1]
    rfl
  | run _ ih => exact ih
  | refused => exact ⟨rfl, fun _ => rfl⟩
  | hand _ ih =>
    refine ⟨?_, nofun⟩
    rw [items, ih.1, Option.toList_some, List.singleton_append, upToError]
    rfl
  | stop _ ih =>
    refine ⟨?_, nofun⟩
    rw [items, ih.1, Option.toList_some, List.singleton_append, upToError]
    rfl
  | finish _ ih =>
    refine ⟨?_, fun _ => ?_⟩
    · rw [items, ih.2 rfl]
      rfl
    · rw [items, ih.2 rfl, upToError]
  | ended => exact ⟨rfl, fun _ => rfl⟩

/-- Whatever is pulled, the answers are the items one after the other, and `none` behind the last of
them. -/
theorem Pulls.getElem?_eq (h : Pulls i answers j) {n : Nat} (hn : n < answers.length) :
    answers[n]? = some i.items[n]? := by
  induction h generalizing n with
  | done => nomatch hn
  | @pull i j k answer answers hpull _ ih =>
    obtain ⟨hitems, hover⟩ := hpull.items_eq
    cases answer with
    | none =>
      have hrest : j.items = [] := by simpa [hover rfl] using hitems.symm
      rw [hover rfl]
      cases n with
      | zero => rfl
      | succ n =>
        have h := ih (Nat.lt_of_succ_lt_succ hn)
        simpa [hrest] using h
    | some item =>
      rw [hitems]
      cases n with
      | zero => rfl
      | succ n => exact ih (Nat.lt_of_succ_lt_succ hn)

/-! ## There always is a pull -/

/-- Pulled again and again, the iterator yields the items and then is over for good. -/
inductive Yields : RowIterator → List (Except EvalError Row) → Prop where
  | finished {i j : RowIterator} : Pull i none j → Pull j none j → Yields i []
  | item {i j : RowIterator} {item : Except EvalError Row} {items : List (Except EvalError Row)} :
      Pull i (some item) j → Yields j items → Yields i (item :: items)

namespace Yields

variable {items : List (Except EvalError Row)}

theorem rows (rest : List Row) : Yields (.rows rest) (rest.map .ok) := by
  induction rest with
  | nil => exact .finished .noRow .noRow
  | cons r rest ih => exact .item .row ih

theorem mapped (h : Yields i items) : Yields (.mapped f i) (items.map fun item => item >>= f) := by
  induction h with
  | finished hpull hover => exact .finished (.map hpull) (.map hover)
  | item hpull _ ih => exact .item (.map hpull) ih

/-- A row that is left out adds to what has to be pulled before the next answer. -/
theorem skip (hpull : Pull i (some (.ok r)) j) (hp : p r = .ok false)
    (h : Yields (.filtered p j) items) : Yields (.filtered p i) items := by
  cases h with
  | finished hnext hover => exact .finished (.skip hpull hp hnext) hover
  | item hnext hrest => exact .item (.skip hpull hp hnext) hrest

theorem filtered (h : Yields i items) :
    Yields (.filtered p i) (items.filterMap (filterItem p)) := by
  induction h with
  | finished hpull hover => exact .finished (.filterOver hpull) (.filterOver hover)
  | @item i j item items hpull _ ih =>
    cases item with
    | error e => exact .item (.filterError hpull) ih
    | ok r =>
      cases hp : p r with
      | error e =>
        rw [List.filterMap_cons_some (by rw [filterItem, hp])]
        exact .item (.undecided hpull hp) ih
      | ok passes =>
        cases passes with
        | true =>
          rw [List.filterMap_cons_some (by rw [filterItem, hp])]
          exact .item (.keep hpull hp) ih
        | false =>
          rw [List.filterMap_cons_none (by rw [filterItem, hp])]
          exact skip hpull hp ih

/-- So does a row that is gathered. -/
theorem gather (hpull : Pull i (some (.ok r)) j)
    (h : Yields (.gathering (gathered ++ [r]) j compute) items) :
    Yields (.gathering gathered i compute) items := by
  cases h with
  | finished hnext hover => exact .finished (.gather hpull hnext) hover
  | item hnext hrest => exact .item (.gather hpull hnext) hrest

theorem running (h : Yields i items) : Yields (.running i) items := by
  induction h with
  | finished hpull hover => exact .finished (.run hpull) (.run hover)
  | item hpull _ ih => exact .item (.run hpull) ih

theorem opening (h : Yields i items) : Yields (.opening i) items := by
  cases h with
  | finished hpull hover => exact .finished (.start hpull) (.run hover)
  | item hpull hrest => exact .item (.start hpull) hrest.running

theorem gathering (h : Yields i items) :
    Yields (.gathering gathered i compute)
      (RowStream.ofResult (items.mapM id >>= fun rows => compute (gathered ++ rows))).items := by
  induction h generalizing gathered with
  | finished hpull _ =>
    rw [mapM_nil, List.append_nil]
    cases hmade : compute gathered with
    | error e => exact .item (.refuse hpull hmade) (.finished .refused .refused)
    | ok made =>
      rw [RowStream.items_ofResult_ok]
      cases made with
      | nil => exact .finished (.compute hpull hmade .noRow) (.run .noRow)
      | cons r made => exact .item (.compute hpull hmade .row) (rows made).running
  | @item i j item items hpull _ ih =>
    cases item with
    | error e => exact .item (.gatherError hpull) (.finished .refused .refused)
    | ok r =>
      rw [mapM_ok_cons]
      have hrest := @ih (gathered ++ [r])
      simp only [List.append_assoc, List.singleton_append] at hrest
      exact gather hpull hrest

theorem untilError (h : Yields i items) : Yields (.untilError i) (upToError items) := by
  induction h with
  | finished hpull _ => exact .finished (.finish hpull) .ended
  | @item i j item items hpull _ ih =>
    cases item with
    | error e => exact .item (.stop hpull) (.finished .ended .ended)
    | ok r => exact .item (.hand hpull) ih

end Yields

theorem yields_items (i : RowIterator) : Yields i i.items := by
  induction i with
  | rows rest => exact .rows rest
  | mapped f source ih => exact ih.mapped
  | filtered p source ih => exact ih.filtered
  | opening source ih => exact ih.opening
  | gathering gathered source compute ih => exact ih.gathering
  | running source ih => exact ih.running
  | refused => exact .finished .refused .refused
  | untilError source ih => exact ih.untilError
  | ended => exact .finished .ended .ended

theorem exists_pulls_of_over (h : Pull i none i) (n : Nat) :
    ∃ answers, Pulls i answers i ∧ answers.length = n := by
  induction n with
  | zero => exact ⟨[], .done, rfl⟩
  | succ n ih =>
    obtain ⟨answers, hpulls, hlength⟩ := ih
    exact ⟨none :: answers, .pull h hpulls, by rw [List.length_cons, hlength]⟩

/-- An iterator can be pulled as often as one likes, also after it is over. -/
theorem exists_pulls (i : RowIterator) (n : Nat) :
    ∃ answers j, Pulls i answers j ∧ answers.length = n := by
  have hyields := i.yields_items
  generalize i.items = items at hyields
  induction hyields generalizing n with
  | @finished i j hpull hover =>
    cases n with
    | zero => exact ⟨[], i, .done, rfl⟩
    | succ n =>
      obtain ⟨answers, hpulls, hlength⟩ := exists_pulls_of_over hover n
      exact ⟨none :: answers, j, .pull hpull hpulls, by rw [List.length_cons, hlength]⟩
  | @item i j item _ hpull _ ih =>
    cases n with
    | zero => exact ⟨[], i, .done, rfl⟩
    | succ n =>
      obtain ⟨answers, k, hpulls, hlength⟩ := ih n
      exact ⟨some item :: answers, k, .pull hpull hpulls, by rw [List.length_cons, hlength]⟩

end RowIterator

/-! ## Datasets -/

/-- The iterator that each stream of a dataset starts with. -/
inductive DataSet.Opens : DataSet → RowIterator → Prop where
  /-- A dataset that holds its rows. -/
  | given {schema : Schema} {name : Option String} {rows : List Row} :
      Opens ⟨schema, name, .pure (.ofRows rows)⟩ (.rows rows)
  | mapRows {d : DataSet} {i : RowIterator} {schema : Schema} {f : Row → Except EvalError Row} :
      Opens d i → Opens (d.mapRows schema f) (.untilError (.opening (.mapped f i)))
  | filter {d : DataSet} {i : RowIterator} {p : Row → Except EvalError Bool} :
      Opens d i → Opens (d.filter p) (.untilError (.opening (.filtered p i)))
  /-- A dataset whose rows are computed of all rows of another one. -/
  | whole {d : DataSet} {i : RowIterator} {schema : Schema}
      {compute : List Row → Except EvalError (List Row)} :
      Opens d i → Opens (.derived schema fun _ => .ofResult (d.collect >>= compute))
        (.untilError (.gathering [] i compute))

namespace RowStream

open RowIterator (upToError filterItem)

/-- A stream has at most one error, at its end. -/
theorem upToError_items (s : RowStream) : upToError s.items = s.items := by
  obtain ⟨rows, fault⟩ := s
  induction rows with
  | nil => cases fault <;> rfl
  | cons r rows ih => exact congrArg (.ok r :: ·) ih

theorem items_mapRows (s : RowStream) (f : Row → Except EvalError Row) :
    upToError (s.items.map fun item => item >>= f) = (s.mapRows f).items := by
  obtain ⟨rows, fault⟩ := s
  induction rows with
  | nil => cases fault <;> rfl
  | cons r rows ih =>
    show upToError (f r :: _) = (mapFrom f fault (r :: rows)).items
    unfold mapFrom
    cases hr : f r with
    | error e => rfl
    | ok made => exact congrArg (.ok made :: ·) ih

theorem items_filterRows (s : RowStream) (p : Row → Except EvalError Bool) :
    upToError (s.items.filterMap (filterItem p)) = (s.filterRows p).items := by
  obtain ⟨rows, fault⟩ := s
  induction rows with
  | nil => cases fault <;> rfl
  | cons r rows ih =>
    have hitems : RowStream.items ⟨r :: rows, fault⟩ = .ok r :: RowStream.items ⟨rows, fault⟩ := rfl
    show _ = (filterFrom p fault (r :: rows)).items
    unfold filterFrom
    rw [hitems]
    cases hp : p r with
    | error e =>
      rw [List.filterMap_cons_some (by rw [filterItem, hp])]
      rfl
    | ok passes =>
      cases passes with
      | true =>
        rw [List.filterMap_cons_some (by rw [filterItem, hp])]
        exact congrArg (.ok r :: ·) ih
      | false =>
        rw [List.filterMap_cons_none (by rw [filterItem, hp])]
        exact ih

theorem mapM_items (s : RowStream) : s.items.mapM id = s.collect := by
  obtain ⟨rows, fault⟩ := s
  induction rows with
  | nil => cases fault <;> rfl
  | cons r rows ih =>
    have hitems : RowStream.items ⟨r :: rows, fault⟩ = .ok r :: RowStream.items ⟨rows, fault⟩ := rfl
    rw [hitems, List.mapM_cons, ih]
    cases fault <;> rfl

end RowStream

namespace DataSet

/-- The iterator of a dataset yields what its stream does. -/
theorem Opens.items_eq {d : DataSet} {i : RowIterator} (h : d.Opens i) :
    i.items = d.stream.items := by
  induction h with
  | given => exact (RowStream.items_ofResult_ok _).symm
  | @mapRows d i schema f _ ih =>
    simp only [RowIterator.items, ih]
    exact d.stream.items_mapRows f
  | @filter d i p _ ih =>
    simp only [RowIterator.items, ih]
    exact d.stream.items_filterRows p
  | @whole d i schema compute _ ih =>
    rw [RowIterator.items, RowIterator.items, ih, RowStream.mapM_items, RowStream.upToError_items]
    rfl

/-- The rows are computed of the groups of all rows. -/
theorem Opens.groups {d : DataSet} {i : RowIterator} {schema : Schema}
    {groups : Except EvalError (List Group)} {cut : List Row → List Group}
    {make : List Group → Except EvalError (List Row)} (h : d.Opens i)
    (hgroups : groups = d.collect.map cut) :
    (DataSet.derived schema fun _ => .ofResult (groups >>= make)).Opens
      (.untilError (.gathering [] i fun rows => make (cut rows))) := by
  have hmake : (groups >>= make) = d.collect >>= fun rows => make (cut rows) := by
    rw [hgroups]
    cases d.collect <;> rfl
  rw [hmake]
  exact h.whole

end DataSet

/-! ## Groups of all rows -/

theorem DataSet.groupBy_eq_map {d : DataSet} {keys : List Component} {positions : List Nat}
    (hpositions : d.keyPositions keys = .ok positions) :
    d.groupBy keys =
      d.collect.map fun rows => (PartitionMap.ofRows positions (numbered rows)).groups := by
  unfold DataSet.groupBy
  rw [hpositions, ok_bind]
  cases d.collect <;> rfl

/-- What a window cuts are all rows of the dataset. -/
theorem Window.partitions_eq_map {d : DataSet} {spec : WindowSpec} {defaults : WindowDefaults}
    {w : Window} (hw : resolve? d.schema spec defaults = .ok w) :
    ∃ cut, w.partitions d = d.collect.map cut := by
  obtain ⟨positions, hpositions, -⟩ := keyPositions_eq_ok (resolve?_eq_ok hw).1
  refine ⟨fun rows => (PartitionMap.ofRows positions (numbered rows)).groups.map fun g =>
    { g with rows := w.sortRows g.rows }, ?_⟩
  unfold partitions
  rw [DataSet.groupBy_eq_map hpositions]
  cases d.collect <;> rfl

/-- What a statistic groups are all rows of the dataset. -/
theorem Statistic.groups_eq_map {d : DataSet} {names : List String} {keys : List Component}
    (hkeys : groupKeys? d.schema names = .ok keys) : ∃ cut, groups keys d = d.collect.map cut := by
  have hmem : ∀ k ∈ keys, k ∈ d.schema.components := by
    intro k hk
    obtain ⟨name, -, hname⟩ := exists_of_mem_mapM hkeys hk
    exact Schema.mem_of_mem_identifiers (Schema.mem_of_requireIdentifier hname)
  obtain ⟨positions, hpositions, -⟩ := keyPositions_eq_ok hmem
  unfold groups
  split
  · exact ⟨fun rows => [⟨[], rows⟩], by cases d.collect <;> rfl⟩
  · exact ⟨_, DataSet.groupBy_eq_map hpositions⟩

/-- Datasets are made by mapping, by filtering, and by computing of all rows. -/
theorem DataSet.invariant_opens : Invariant fun d => ∃ i, d.Opens i where
  membership := by
    rintro d m name label ⟨i, hi⟩ hm
    obtain ⟨target, -, hm⟩ := bind_eq_ok.1 hm
    obtain ⟨member, -, hm⟩ := bind_eq_ok.1 hm
    cases hm
    exact ⟨_, hi.mapRows⟩
  filter := by
    rintro d p ⟨i, hi⟩
    exact ⟨_, hi.filter⟩
  keep := by
    rintro d names target label ⟨i, hi⟩ -
    exact ⟨_, hi.mapRows⟩
  drop := by
    rintro d names target label ⟨i, hi⟩ -
    exact ⟨_, hi.mapRows⟩
  mapMeasures := by
    rintro d domainOf target label f ⟨i, hi⟩ -
    exact ⟨_, hi.mapRows⟩
  compute := by
    rintro d name domain target computed label valueOf ⟨i, hi⟩ - -
    exact ⟨_, hi.mapRows⟩
  shift := by
    rintro d spec w direction offset default label ⟨i, hi⟩ hw
    obtain ⟨cut, hcut⟩ := Window.partitions_eq_map hw
    exact ⟨_, hi.groups hcut⟩
  aggregate := by
    rintro d names keys target s ⟨i, hi⟩ - hkeys -
    obtain ⟨cut, hcut⟩ := Statistic.groups_eq_map hkeys
    exact ⟨_, hi.groups hcut⟩
  analytic := by
    rintro d spec w target r label ⟨i, hi⟩ hw -
    obtain ⟨cut, hcut⟩ := Window.partitions_eq_map hw
    exact ⟨_, hi.groups hcut⟩

end DataCube
