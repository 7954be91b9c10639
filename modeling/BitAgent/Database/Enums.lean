/-
# Database.Enums — the enumerations that columns hold

Each enumeration with the texts that are stored for its values.
-/

namespace BitAgent.Database

inductive ContentType
  | movie
  | tvShow
  | music
  | ebook
  | comic
  | audiobook
  | game
  | software
  | xxx
  | course
  deriving DecidableEq

def ContentType.text : ContentType → String
  | movie => "movie"
  | tvShow => "tv_show"
  | music => "music"
  | ebook => "ebook"
  | comic => "comic"
  | audiobook => "audiobook"
  | game => "game"
  | software => "software"
  | xxx => "xxx"
  | course => "course"

inductive VideoResolution
  | v360p
  | v480p
  | v540p
  | v576p
  | v720p
  | v1080p
  | v1440p
  | v2160p
  | v4320p
  deriving DecidableEq

def VideoResolution.text : VideoResolution → String
  | v360p => "V360p"
  | v480p => "V480p"
  | v540p => "V540p"
  | v576p => "V576p"
  | v720p => "V720p"
  | v1080p => "V1080p"
  | v1440p => "V1440p"
  | v2160p => "V2160p"
  | v4320p => "V4320p"

inductive Video3D
  | v3d
  | v3dsbs
  | v3dou
  deriving DecidableEq

def Video3D.text : Video3D → String
  | v3d => "V3D"
  | v3dsbs => "V3DSBS"
  | v3dou => "V3DOU"

end BitAgent.Database
