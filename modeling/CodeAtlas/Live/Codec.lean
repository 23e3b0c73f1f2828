import CodeAtlas.Graph.Codec
import CodeAtlas.Live.Board

/-!
# Updates as JSON
-/

namespace CodeAtlas

def Update.toJson (u : Update) : Json :=
  .obj [("sequence", .ofNat u.sequence), ("view", .str u.picture.view.name),
    ("language", .str u.picture.language.name), ("mode", .str u.picture.mode.name),
    ("graph", u.picture.graph.toJson)]

end CodeAtlas
