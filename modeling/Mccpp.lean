import Mccpp.Library.PartialRun
import Mccpp.Library.Pull
import Mccpp.Library.BigEndian
import Mccpp.Library.Format
import Mccpp.Library.Boundary
import Mccpp.Library.Walk
import Mccpp.Library.Forest
import Mccpp.Library.MixedRadix
import Mccpp.Library.BitString
import Mccpp.Library.Reachability
import Mccpp.Library.Diamond
import Mccpp.Library.Segments
import Mccpp.Library.Fallible
import Mccpp.Library.Hex
import Mccpp.Library.NodeMap
import Mccpp.Library.Lockstep
import Mccpp.Library.Ownership
import Mccpp.Library.Calls
import Mccpp.Model.Machine
import Mccpp.Model.RingBuffer
import Mccpp.Model.PacketReader
import Mccpp.Model.PacketWriter
import Mccpp.Model.Nbt
import Mccpp.Model.NbtEvents
import Mccpp.Model.Connection
import Mccpp.Model.Serverbound
import Mccpp.Model.Sending
import Mccpp.Model.Chunk
import Mccpp.Model.ChunkMesh
import Mccpp.Model.ModelMesh
import Mccpp.Model.ChunkManager
import Mccpp.Model.ChunkNodes
import Mccpp.Model.Vfs
import Mccpp.Model.Client
import Mccpp.Model.ClientConnection
import Mccpp.Model.NbtDump
import Mccpp.Model.Resource
import Mccpp.Model.Loading
import Mccpp.Model.BlockStates
import Mccpp.Model.BlockData
import Mccpp.Model.BlockVariants
import Mccpp.Model.Input
import Mccpp.Model.Formatting
import Mccpp.Model.Position
import Mccpp.Model.Texture
import Mccpp.Model.Identifier
import Mccpp.Model.RuntimeArray
import Mccpp.Model.Coroutine
import Mccpp.Model.ReceiverTask
import Mccpp.Interface.BoundedFifo
import Mccpp.Interface.ByteFormat
import Mccpp.Interface.Layout
import Mccpp.Interface.NbtGrammar
import Mccpp.Interface.FrameStream
import Mccpp.Interface.Field
import Mccpp.Interface.SentFrame
import Mccpp.Interface.Section
import Mccpp.Interface.Surface
import Mccpp.Interface.HostTree
import Mccpp.Interface.PacketLayout
import Mccpp.Interface.Session
import Mccpp.Interface.AllOrNothing
import Mccpp.Interface.Inheritance
import Mccpp.Interface.BlockTable
import Mccpp.Interface.Varint
import Mccpp.Interface.InputFrames
import Mccpp.Interface.DepthFirst
import Mccpp.Interface.CubeFaces
import Mccpp.Interface.RotatedBox
import Mccpp.Interface.ModelFaces
import Mccpp.Interface.FilePaths
import Mccpp.Interface.BlockVariants
import Mccpp.Interface.MouseMotion
import Mccpp.Interface.SendRun
import Mccpp.Interface.HexDump
import Mccpp.Interface.ReaderRun
import Mccpp.Interface.NbtShape
import Mccpp.Interface.Reserves
import Mccpp.Interface.RgbPixels
import Mccpp.Interface.QualifiedName
import Mccpp.Interface.Numerals
import Mccpp.Interface.ArrayOwnership
import Mccpp.Interface.ClientRun
import Mccpp.Interface.CallFrames
import Mccpp.Interface.ReceiverRun
import Mccpp.Analysis.RingBufferRefinement
import Mccpp.Analysis.ReaderRules
import Mccpp.Analysis.ReaderFormats
import Mccpp.Analysis.LayoutRules
import Mccpp.Analysis.NbtDecoding
import Mccpp.Analysis.NbtBreakdown
import Mccpp.Analysis.ConnectionSafety
import Mccpp.Analysis.ConnectionFragmentation
import Mccpp.Analysis.ConnectionOverflow
import Mccpp.Analysis.FieldCodec
import Mccpp.Analysis.Sending
import Mccpp.Analysis.SectionFraming
import Mccpp.Analysis.ChunkMesh
import Mccpp.Analysis.ChunkColumns
import Mccpp.Analysis.NestedReader
import Mccpp.Analysis.PacketLayouts
import Mccpp.Analysis.PacketSafety
import Mccpp.Analysis.Sessions
import Mccpp.Analysis.Outcomes
import Mccpp.Analysis.TornChunks
import Mccpp.Analysis.VfsBuild
import Mccpp.Analysis.FilePaths
import Mccpp.Analysis.VfsLookup
import Mccpp.Analysis.NodePaths
import Mccpp.Analysis.Finalize
import Mccpp.Analysis.BlockProperties
import Mccpp.Analysis.BlockIteration
import Mccpp.Analysis.ParseUint
import Mccpp.Analysis.BlockMatching
import Mccpp.Analysis.VarintCodec
import Mccpp.Analysis.ExtractBits
import Mccpp.Analysis.InputFrames
import Mccpp.Analysis.KeyReleases
import Mccpp.Analysis.Loading
import Mccpp.Analysis.MeshQuads
import Mccpp.Analysis.RotatedBox
import Mccpp.Analysis.Rotations
import Mccpp.Analysis.ModelNormals
import Mccpp.Analysis.ModelWinding
import Mccpp.Analysis.BlockExamination
import Mccpp.Analysis.BlockVariants
import Mccpp.Analysis.VariantFlags
import Mccpp.Analysis.MouseMotion
import Mccpp.Analysis.SendRuns
import Mccpp.Analysis.UuidText
import Mccpp.Analysis.Positions
import Mccpp.Analysis.HexColumns
import Mccpp.Analysis.ColumnNodes
import Mccpp.Analysis.ReaderBalance
import Mccpp.Analysis.BitsetSkips
import Mccpp.Analysis.NbtEvents
import Mccpp.Analysis.NbtShapes
import Mccpp.Analysis.NbtBounds
import Mccpp.Analysis.LogRules
import Mccpp.Analysis.Reserves
import Mccpp.Analysis.ReserveBounds
import Mccpp.Analysis.NbtDumps
import Mccpp.Analysis.TexturePixels
import Mccpp.Analysis.Identifiers
import Mccpp.Analysis.RuntimeArrays
import Mccpp.Analysis.ClientRuns
import Mccpp.Analysis.ClientWorlds
import Mccpp.Analysis.Coroutines
import Mccpp.Analysis.ReceiverTasks
import Mccpp.Analysis.Flights
import Mccpp.Library.Scopes
import Mccpp.Analysis.ScopeGuards
import Mccpp.Analysis.ShaderObjects
import Mccpp.Analysis.ModelDocuments
import Mccpp.Analysis.BuiltTrees
import Mccpp.Analysis.AssetLoading
import Mccpp.Analysis.AssetStart
import Mccpp.Model.PacketTypes
import Mccpp.Analysis.PacketDispatch
import Mccpp.Analysis.Regeneration
import Mccpp.Analysis.Cvars
import Mccpp.Analysis.StateListing
import Mccpp.Analysis.Logging
import Mccpp.Analysis.StartMesh
