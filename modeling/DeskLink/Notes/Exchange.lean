import DeskLink.Notes.Wire

/-!
# `DeskLink.Notes.Exchange`: packets in a row, and an index exchange

`handleAll` hands packets to a shelf one after another, as a connection
does. `exchangeIndexes` is what two devices do when their connection
comes up: each sends its index, the ids it then asks for come back as
items, and what the other side refuses as older is answered with its own.
-/

set_option autoImplicit false

namespace DeskLink.Notes

/-- `packets` from phone `peer`, in order: the shelf, and all that is sent
back. -/
def handleAll (s : Shelf) (packets : List Packet) (peer : String) : Shelf × List Packet :=
  packets.foldl (fun (s, answers) packet =>
    let (s, answer, _) := handleFrom s packet peer
    (s, answers ++ answer)) (s, [])

/-- The indexes of `kind` of the devices `idA` and `idB`, whose shelves are
`a` and `b`, go to each other, and every answer to its end. -/
def exchangeIndexes (kind : Kind) (a b : Shelf) (idA idB : String) : Shelf × Shelf :=
  let (b', fetchesB) := handleAll b (indexPackets a kind) idA
  let (a, fetchesA) := handleAll a (indexPackets b kind) idB
  let (a, itemsA) := handleAll a fetchesB idB
  let (b, itemsB) := handleAll b' fetchesA idA
  let (b, answersB) := handleAll b itemsA idA
  let (a, answersA) := handleAll a itemsB idB
  let (a, _) := handleAll a answersB idB
  let (b, _) := handleAll b answersA idA
  (a, b)

end DeskLink.Notes
