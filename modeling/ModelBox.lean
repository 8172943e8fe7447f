import ModelBox.Lineage.Buffer
import ModelBox.Lineage.Climb
import ModelBox.Session.World
import ModelBox.Cache.PortStreams
import ModelBox.Cache.SessionUnmatchCache
import ModelBox.Node.InputVirtualNode
import ModelBox.Node.OutputVirtualNode
import ModelBox.Node.OutputUnmatchVirtualNode
import ModelBox.Engine.InputBoundary
import ModelBox.Engine.OutputBoundary
