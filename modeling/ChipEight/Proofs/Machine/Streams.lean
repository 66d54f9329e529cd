import ChipEight.Proofs.Machine.Loading

/-!
# Programs from a stream

How the bytes of a program arrive makes no difference. The pieces of a source up to its end or its
failure are those that a read gets something from, or that are to be tried again; they deliver
their bytes, joined (`delivered_append`), and every source is such pieces followed by an end or by
a failure (`exists_flowing`). After an end a load sees the joined bytes and nothing else. After a
failure it does not see any: whether the bytes before it were too many is not asked.
-/

namespace ChipEight

/-- A read gets something from the piece, or is to be tried again. -/
def Piece.Flows : Piece → Prop
  | .bytes b => b ≠ []
  | .interrupted => True
  | .failing _ => False

/-- The bytes of a piece. -/
def Piece.content : Piece → List UInt8
  | .bytes b => b
  | .interrupted | .failing _ => []

namespace Source

/-- A read finds that the source has ended. -/
def Ended : Source → Prop
  | [] | .bytes [] :: _ => True
  | .bytes (_ :: _) :: _ | .interrupted :: _ | .failing _ :: _ => False

theorem Ended.clean : ∀ {rest : Source}, rest.Ended → rest.delivered = [] ∧ rest.ending = .clean
  | [], _ | .bytes [] :: _, _ => ⟨rfl, rfl⟩

/-- Pieces that flow deliver their bytes, and leave open how the source ends. -/
theorem delivered_append : ∀ {before : Source}, (∀ p ∈ before, p.Flows) → ∀ rest : Source,
    delivered (before ++ rest) = before.flatMap Piece.content ++ rest.delivered ∧
      ending (before ++ rest) = rest.ending
  | [], _, _ => ⟨rfl, rfl⟩
  | p :: before, h, rest => by
      obtain ⟨hp, hbefore⟩ := List.forall_mem_cons.mp h
      obtain ⟨hdelivered, hending⟩ := delivered_append hbefore rest
      rw [List.flatMap_cons, List.append_assoc, ← hdelivered, ← hending]
      cases p with
      | bytes b => exact ⟨delivered_bytes hp _, ending_bytes hp _⟩
      | interrupted => exact ⟨rfl, rfl⟩
      | failing _ => exact hp.elim

/-- Every source flows up to where it ends or fails. -/
theorem exists_flowing : ∀ source : Source, ∃ before rest : Source, source = before ++ rest ∧
    (∀ p ∈ before, p.Flows) ∧ (rest.Ended ∨ ∃ text after, rest = .failing text :: after)
  | [] => ⟨[], [], rfl, by simp, .inl trivial⟩
  | .bytes [] :: after => ⟨[], .bytes [] :: after, rfl, by simp, .inl trivial⟩
  | .failing text :: after => ⟨[], .failing text :: after, rfl, by simp, .inr ⟨text, after, rfl⟩⟩
  | .bytes (b :: bs) :: more => by
      obtain ⟨before, rest, rfl, hflows, hrest⟩ := exists_flowing more
      exact ⟨.bytes (b :: bs) :: before, rest, rfl,
        List.forall_mem_cons.mpr ⟨List.cons_ne_nil b bs, hflows⟩, hrest⟩
  | .interrupted :: more => by
      obtain ⟨before, rest, rfl, hflows, hrest⟩ := exists_flowing more
      exact ⟨.interrupted :: before, rest, rfl, List.forall_mem_cons.mpr ⟨trivial, hflows⟩, hrest⟩

end Source

namespace Session

/-- A program that comes in pieces. Every source flows up to where it ends or fails. If it ends, a
load from it is answered as a load of the joined bytes is, and leaves the session the same, however
the bytes were cut and however often a read was interrupted. If it fails, the load says why and
nothing in the session has changed, however many bytes had come. -/
theorem load_of_stream :
    (∀ source : Source, ∃ before rest : Source, source = before ++ rest ∧
      (∀ p ∈ before, p.Flows) ∧ (rest.Ended ∨ ∃ text after, rest = .failing text :: after)) ∧
    ∀ (a : Session) (before : Source), (∀ p ∈ before, p.Flows) →
      (∀ rest : Source, rest.Ended →
        a.answer? (.read (before ++ rest)) =
          a.answer? (.load (before.flatMap Piece.content).toArray) ∧
        a.run? [.read (before ++ rest)] =
          a.run? [.load (before.flatMap Piece.content).toArray]) ∧
      ∀ text after,
        a.answer? (.read (before ++ .failing text :: after)) =
          some (.failed (.io (.other text)) a.machine) ∧
        a.run? [.read (before ++ .failing text :: after)] = some a := by
  refine ⟨Source.exists_flowing, fun a before hflows => ⟨fun rest hrest => ?ended,
    fun text after => ?failed⟩⟩
  case ended =>
    obtain ⟨hdelivered, hending⟩ := Source.delivered_append hflows rest
    obtain ⟨hnothing, hclean⟩ := hrest.clean
    have hload : a.machine.loadFrom (before ++ rest) =
        a.machine.load (before.flatMap Piece.content).toArray := by
      rw [Machine.loadFrom_of_ending, hending, hclean, hdelivered, hnothing, List.append_nil]
    have hanswer : a.answer? (.read (before ++ rest)) =
        a.answer? (.load (before.flatMap Piece.content).toArray) := congrArg some hload
    refine ⟨hanswer, ?_⟩
    rw [run?, run?, hanswer]
    rfl
  case failed =>
    obtain ⟨-, hending⟩ := Source.delivered_append hflows (.failing text :: after)
    have hload : a.machine.loadFrom (before ++ .failing text :: after) =
        .failed (.io (.other text)) a.machine := by
      rw [Machine.loadFrom_of_ending, hending]
      rfl
    have hanswer : a.answer? (.read (before ++ .failing text :: after)) =
        some (.failed (.io (.other text)) a.machine) := congrArg some hload
    refine ⟨hanswer, ?_⟩
    rw [run?, hanswer]
    rfl

/-- A program in two pieces with an interruption between them and an end before more bytes, and
one that fails after more bytes than there is room for. -/
theorem load_of_stream_interrupted : ∃ (a : Session) (large : List UInt8),
    a.Begins { resetOnLoad := true } ∧ large.length = 3585 ∧
    a.run? [.read [.bytes [0x60], .interrupted, .bytes [0x07, 0x12], .bytes [], .bytes [0x34]]] =
      a.run? [.load #[0x60, 0x07, 0x12]] ∧
    a.answer? (.read [.bytes large, .failing "gone", .bytes [0x34]]) =
      some (.failed (.io (.other "gone")) a.machine) := by
  obtain ⟨a, ha, -⟩ := exists_begins (s := { resetOnLoad := true }) rfl (by decide) .untouched
  obtain ⟨large, hlarge⟩ : ∃ large : List UInt8, large.length = 3585 :=
    ⟨List.replicate 3585 0, List.length_replicate⟩
  have hne : large ≠ [] := List.ne_nil_of_length_pos (by omega)
  obtain ⟨-, hstream⟩ := load_of_stream
  obtain ⟨hended, -⟩ := hstream a [.bytes [0x60], .interrupted, .bytes [0x07, 0x12]]
    (by simp [Piece.Flows])
  obtain ⟨-, hfailed⟩ := hstream a [.bytes large] (by simpa [Piece.Flows] using hne)
  exact ⟨a, large, ha, hlarge, (hended [.bytes [], .bytes [0x34]] trivial).2,
    (hfailed "gone" [.bytes [0x34]]).1⟩

end Session

end ChipEight
