import Lending.Pool.Metrics
import Lending.Text.ByteOrder

/-!
# Exposition text

The text that a Prometheus scraper reads, as `export_prometheus` writes it: for each figure a line
with its meaning, a line with its type and a line with its labels and value (`Sample.text`). All
samples carry the same labels (`labels`): the pool's name, then the tags in the byte order of their
keys. Names, keys and values are written between quotes as they are, none of their characters being
escaped; what that means for a reader is the subject of `Lending.Proofs.Pool.Exposition`.

A tag map is given as its pairs, in any order, each key once, since a map may be gone through in any
order. `Tags.ofList` makes one from insertions, a later one replacing an earlier one of its key.
-/

namespace Lending

/-- A map from keys to values, as a list of pairs with distinct keys. -/
abbrev Tags := List (String × String)

namespace Tags

/-- `tags` with `key` mapped to `value`. -/
def insert (tags : Tags) (key value : String) : Tags :=
  (key, value) :: tags.filter fun tag => tag.1 != key

/-- The map after these insertions, first to last. -/
def ofList (insertions : List (String × String)) : Tags :=
  insertions.foldl (fun tags tag => tags.insert tag.1 tag.2) []

end Tags

namespace Pool.Metrics

/-- What kind of figure a sample is. -/
inductive SampleKind where
  | gauge
  | counter
  deriving DecidableEq

/-- The name of a kind. -/
def SampleKind.name : SampleKind → String
  | .gauge => "gauge"
  | .counter => "counter"

/-- A figure as a scraper reads it. -/
structure Sample where
  name  : String
  help  : String
  kind  : SampleKind
  value : String

/-- All samples of a snapshot, in the order of the text. -/
def samples (m : Metrics) : List Sample :=
  [ ⟨"sessionpool_resources_active", "Current borrowed resources", .gauge, toString m.active⟩,
    ⟨"sessionpool_resources_idle", "Current idle resources", .gauge, toString m.idle⟩,
    ⟨"sessionpool_callers_waiting", "Callers blocked in acquire", .gauge, toString m.waiting⟩,
    ⟨"sessionpool_capacity", "Configured capacity (0 = unbounded)", .gauge,
      toString m.maxCapacity⟩,
    ⟨"sessionpool_utilization", "Pool utilization ratio", .gauge, m.utilizationText⟩,
    ⟨"sessionpool_acquired_total", "Total resources acquired", .counter,
      toString m.counters.acquired⟩,
    ⟨"sessionpool_released_total", "Total resources released to idle", .counter,
      toString m.counters.released⟩,
    ⟨"sessionpool_created_total", "Total resources created", .counter,
      toString m.counters.created⟩,
    ⟨"sessionpool_evicted_total", "Total resources evicted", .counter,
      toString m.counters.evicted⟩,
    ⟨"sessionpool_stale_evictions_total", "Stale idle resources replaced", .counter,
      toString m.counters.stale⟩,
    ⟨"sessionpool_discarded_total", "Borrowed resources discarded on return", .counter,
      toString m.counters.discarded⟩,
    ⟨"sessionpool_exhausted_total", "Acquisitions that timed out", .counter,
      toString m.counters.exhausted⟩ ]

/-- One label: a key and its value between quotes, written as they are. -/
def label (key value : String) : String := key ++ "=\"" ++ value ++ "\""

/-- The labels of all samples: the pool first, then the tags by key. -/
def labels (pool : String) (tags : Tags) : String :=
  let sorted := Text.sortOn Prod.fst tags
  ",".intercalate (label "pool" pool :: sorted.map fun tag => label tag.1 tag.2)

/-- The three lines of a sample. -/
def Sample.text (labels : String) (s : Sample) : String :=
  "# HELP " ++ s.name ++ " " ++ s.help ++ "\n"
    ++ "# TYPE " ++ s.name ++ " " ++ s.kind.name ++ "\n"
    ++ s.name ++ "\x7b" ++ labels ++ "\x7d " ++ s.value ++ "\n"

/-- The text of a snapshot. -/
def exposition (m : Metrics) (pool : String) (tags : Tags) : String :=
  String.join (m.samples.map (Sample.text (labels pool tags)))

end Pool.Metrics

end Lending
