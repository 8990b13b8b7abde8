import TxoIndex.Store.DataFile

/-!
# Images of stores

Between two uses a store is its tables and the ground of its data file. The bytes of an image start
like the head of a data file, with a mark of their own where a head has an address. The tables
follow one after another, each entry behind its length.
-/

namespace TxoIndex

/-- What is kept of a closed store. -/
structure StoreImage where
  tables : Tables
  ground : Ground

namespace StoreImage

def lead : Bytes :=
  DataHead.lead ++ DataHead.mark ++ DataHead.version ++
    [0x54, 0x58, 0x4f, 0x49, 0x4e, 0x44, 0x45, 0x58]

def groundBytes (g : Ground) : Bytes :=
  [g.pageSize, g.made, g.opening.mapSize, g.opening.lastPage, g.current.mapSize,
    g.current.lastPage, g.counted].flatMap (Bytes.littleEndian 8)

def tableBytes (t : Table) : Bytes :=
  countedBytes (fun (key, value) ↦ sizedBytes key ++ sizedBytes value) t.toList

def encode (image : StoreImage) : Bytes :=
  let t := image.tables
  lead ++ groundBytes image.ground ++
    countedBytes (fun (key, bucket) ↦ sizedBytes key ++ countedBytes sizedBytes bucket.records)
      t.scripts.toList ++
    tableBytes t.outpoints ++ tableBytes t.headers ++ tableBytes t.marks

def extent : Decoder Extent := do
  let mapSize ← Decoder.number 8
  let lastPage ← Decoder.number 8
  return { mapSize, lastPage }

def groundDecoder : Decoder Ground := do
  let pageSize ← Decoder.number 8
  let made ← Decoder.number 8
  let opening ← extent
  let current ← extent
  let counted ← Decoder.number 8
  return { pageSize, made, opening, current, counted }

def entry : Decoder (Bytes × Bytes) := do
  let key ← Decoder.sized
  let value ← Decoder.sized
  return (key, value)

def table : Decoder Table := do
  return (← Decoder.counted entry).foldl (fun t (key, value) ↦ t.insert key value) ∅

def scriptEntry : Decoder (Bytes × List Bytes) := do
  let key ← Decoder.sized
  let records ← Decoder.counted Decoder.sized
  return (key, records)

def scriptTable : Decoder (Std.ExtTreeMap Bytes Bucket) := do
  return (← Decoder.counted scriptEntry).foldl (fun t (key, records) ↦
    match Bucket.ofRecords? records with
    | some bucket => t.insert key bucket
    | none => t) ∅

def decoder : Decoder StoreImage := do
  let ground ← groundDecoder
  let scripts ← scriptTable
  let outpoints ← table
  let headers ← table
  let marks ← table
  return { tables := { scripts, outpoints, headers, marks }, ground }

/-- Reads an image, unless the bytes are something else. -/
def decode? (bs : Bytes) : Option StoreImage :=
  if bs.take lead.length = lead then
    (decoder.exactly (bs.drop lead.length)).toOption
  else none

/-! ## Files -/

/-- The image in a file, if there is anything in it. -/
def ofFile (content : Bytes) : Except EngineError (Option StoreImage) := do
  if content.isEmpty then return none
  match decode? content with
  | some image => return some image
  | none =>
    let (tables, ground) ← DataFile.read content
    return some { tables, ground }

end StoreImage

end TxoIndex
