import ClassSplice.Proofs.Pool.Codec

namespace ClassSplice.Pool

open Binary (Reader)

inductive Request where
  | text (value : String)
  | classRef (name : String)
  | string (value : String)
  | integer (value : Int32)
  | float (bits : UInt32)
  | long (value : Int64)
  | double (bits : UInt64)
  | nameAndType (name descriptor : String)
  | field (owner name descriptor : String)
  | method (owner name descriptor : String) (isInterface : Bool)

def Request.run : Request → PoolM Index
  | text value => internText value
  | classRef name => internClass name
  | string value => internString value
  | integer value => intern (.integer value)
  | float bits => intern (.float bits)
  | long value => intern (.long value)
  | double bits => intern (.double bits)
  | nameAndType name descriptor => internNameAndType name descriptor
  | field owner name descriptor => internField owner name descriptor
  | method owner name descriptor isInterface => internMethod owner name descriptor isInterface

/-- Pools that are new or read, and then asked for constants, whether they have room for them or not. -/
inductive Reached : Pool → Prop
  | empty : Reached empty
  | read {input rest : List UInt8} {pool : Pool} (done : read input = .ok (pool, rest)) : Reached pool
  | asked {pool : Pool} (reached : Reached pool) (request : Request) :
      Reached (outcome request.run pool).2

theorem appends_run (request : Request) : Appends request.run := by
  cases request with
  | text value => exact appends_internText value
  | classRef name => exact appends_internClass name
  | string value => exact appends_internString value
  | integer value => exact appends_intern _
  | float bits => exact appends_intern _
  | long value => exact appends_intern _
  | double bits => exact appends_intern _
  | nameAndType name descriptor => exact appends_internNameAndType name descriptor
  | field owner name descriptor => exact appends_internField owner name descriptor
  | method owner name descriptor isInterface => exact appends_internMethod owner name descriptor isInterface

theorem Reached.filled {pool : Pool} (reached : pool.Reached) : pool.Filled := by
  induction reached with
  | empty => exact filled_empty
  | read done => exact (read_eq_ok.1 done).1
  | asked _ request ih => exact (appends_run request _).filled ih

theorem intern_of_missing {constant : Constant} {pool : Pool} (missing : pool.indices[constant]? = none)
    (room : pool.hasRoomFor constant = true) :
    outcome (intern constant) pool = (.ok (UInt16.ofNat pool.next), pool.push constant) := by
  simp only [outcome, intern, missing, if_pos room]

def tinyPool : Pool :=
  [.text "C", .classRef 1, .long 7].foldl push .empty

theorem internClass_empty {name : String} : outcome (internClass name) .empty =
    (.ok 2, [.text name, .classRef 1].foldl push .empty) := by
  have missing : (empty.push (.text name)).indices[Constant.classRef 1]? = none := by
    show ((∅ : Std.HashMap Constant Index).insertIfNew _ _)[_]? = _
    rw [Std.HashMap.getElem?_insertIfNew, if_neg (by simp), Std.HashMap.getElem?_empty]
  have text : outcome (internText name) .empty = (.ok 1, empty.push (.text name)) :=
    intern_of_missing Std.HashMap.getElem?_empty rfl
  rw [internClass, outcome_bind, text]
  exact intern_of_missing missing rfl

theorem seven_missing :
    ([.text "C", .classRef 1].foldl push .empty).indices[Constant.long 7]? = none := by
  show (((∅ : Std.HashMap Constant Index).insertIfNew _ _).insertIfNew _ _)[_]? = _
  rw [Std.HashMap.getElem?_insertIfNew, if_neg (by simp), Std.HashMap.getElem?_insertIfNew,
    if_neg (by simp), Std.HashMap.getElem?_empty]

theorem reached_tinyPool : tinyPool.Reached := by
  have reached : ([.text "C", .classRef 1].foldl push .empty).Reached := by
    have asked := Reached.empty.asked (.classRef "C")
    rwa [Request.run, internClass_empty] at asked
  have asked := reached.asked (.long 7)
  rwa [Request.run, intern_of_missing seven_missing rfl] at asked

end ClassSplice.Pool
